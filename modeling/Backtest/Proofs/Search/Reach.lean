import Mathlib.Data.List.Nodup
import Backtest.Proofs.Parameter.Resolution
import Backtest.Search.Space

/-!
# Spaces reached from a schema

A space starts as the schema itself and is cut down by overrides and pins. Whatever their order,
every varied parameter keeps a range of its declared kind that passes the check of declarations,
every pinned one holds a value of its declared kind, and no name is both.
-/

namespace Backtest

open Parameter

variable {α : Type} [Scalar α]

namespace Space

variable {schema : Schema α} {s s' : Space α} {d declared : Declaration α}

/-! ## One override, one pin -/

omit [Scalar α] in
theorem map_name_replaceFirst (d : Declaration α) (ds : List (Declaration α)) :
    (replaceFirst d ds).map (·.name) = ds.map (·.name) := by
  induction ds with
  | nil => rfl
  | cons x xs ih =>
    simp only [replaceFirst]
    split
    · rename_i hname
      rw [List.map_cons, List.map_cons, eq_of_beq hname]
    · rw [List.map_cons, List.map_cons, ih]

omit [Scalar α] in
theorem mem_replaceFirst {x : Declaration α} {ds : List (Declaration α)}
    (h : x ∈ replaceFirst d ds) : x = d ∨ x ∈ ds := by
  induction ds with
  | nil => cases h
  | cons y ys ih =>
    simp only [replaceFirst] at h
    split at h
    · rcases List.mem_cons.1 h with rfl | h
      · exact .inl rfl
      · exact .inr (List.mem_cons_of_mem _ h)
    · rcases List.mem_cons.1 h with rfl | h
      · exact .inr List.mem_cons_self
      · exact (ih h).imp_right (List.mem_cons_of_mem _)

/-- A narrower range is one for the same name and of the same kind. -/
theorem narrow_eq_ok {r : Range α} (h : narrow declared r = .ok d) :
    d.name = declared.name ∧ d.domain.kind = declared.domain.kind := by
  unfold narrow at h
  cases hdomain : declared.domain with
  | int dlow dhigh dstep value =>
    cases r <;> simp only [hdomain] at h
    · split at h <;> cases h
      exact ⟨rfl, rfl⟩
    all_goals cases h
  | float dlow dhigh dstep value =>
    cases r <;> simp only [hdomain] at h
    · cases h
    · split at h <;> cases h
      exact ⟨rfl, rfl⟩
    · cases h
  | choice options value =>
    cases r <;> simp only [hdomain] at h
    · cases h
    · cases h
    · split at h <;> cases h
      exact ⟨rfl, rfl⟩

theorem override_eq_ok_iff {o : RangeOverride α} :
    s.override o = .ok s' ↔
      ∃ declared d, s.schema.get? o.name = some declared ∧ s.pins.contains o.name = false ∧
        narrow declared o.range = .ok d ∧ d.check = .ok () ∧
        s' = { s with dimensions := replaceFirst d s.dimensions } := by
  unfold override
  cases s.schema.get? o.name with
  | none => simp
  | some declared =>
    cases s.pins.contains o.name with
    | true => simp
    | false => simp [eq_comm (a := s')]

theorem pin_eq_ok_iff {name : String} {v : Value α} :
    s.pin name v = .ok s' ↔
      ∃ declared w, s.schema.get? name = some declared ∧ declared.normalize v = .ok w ∧
        s' = { s with
          pins := s.pins.insert name w
          dimensions := s.dimensions.filter fun d => d.name != name } := by
  unfold pin
  cases s.schema.get? name with
  | none => simp
  | some declared => cases hnormal : declared.normalize v <;> simp [hnormal, Except.map, eq_comm]

/-! ## Every sequence of them -/

/-- Spaces that overrides and pins lead to. -/
inductive Reached (schema : Schema α) : Space α → Prop
  | start : Reached schema (.ofSchema schema)
  | override {s s' : Space α} {o : RangeOverride α} (h : Reached schema s)
      (ho : s.override o = .ok s') : Reached schema s'
  | pin {s s' : Space α} {name : String} {v : Value α} (h : Reached schema s)
      (hp : s.pin name v = .ok s') : Reached schema s'

theorem Reached.schema_eq (h : Reached schema s) : s.schema = schema := by
  induction h with
  | start => rfl
  | override h ho ih =>
    obtain ⟨declared, d, -, -, -, -, rfl⟩ := override_eq_ok_iff.1 ho
    exact ih
  | pin h hp ih =>
    obtain ⟨declared, w, -, -, rfl⟩ := pin_eq_ok_iff.1 hp
    exact ih

/-- What every sequence of overrides and pins keeps. -/
structure Formed (s : Space α) : Prop where
  distinct : (s.dimensions.map (·.name)).Nodup
  unpinned : ∀ d ∈ s.dimensions, s.pins.get? d.name = none
  declared : ∀ d ∈ s.dimensions, ∃ declared, s.schema.get? d.name = some declared ∧
    d.domain.kind = declared.domain.kind
  checked : ∀ d ∈ s.dimensions, d.check = .ok ()
  pinned : ∀ name v, s.pins.get? name = some v → ∃ declared, s.schema.get? name = some declared ∧
    v.kind = declared.domain.kind

theorem formed_ofSchema (hnames : schema.names.Nodup)
    (hchecks : ∀ d ∈ schema.declarations, d.check = .ok ()) : (ofSchema schema).Formed where
  distinct := hnames
  unpinned _ _ := rfl
  declared d hd := ⟨d, Schema.get?_of_mem hnames hd, rfl⟩
  checked := hchecks
  pinned _ _ h := by cases h

theorem Formed.override (h : s.Formed) {o : RangeOverride α} (ho : s.override o = .ok s') :
    s'.Formed := by
  obtain ⟨declared, d, hget, hpins, hnarrow, hcheck, rfl⟩ := override_eq_ok_iff.1 ho
  obtain ⟨hname, hkind⟩ := narrow_eq_ok hnarrow
  rw [Schema.name_of_get? hget] at hname
  refine ⟨?_, fun x hx => ?_, fun x hx => ?_, fun x hx => ?_, h.pinned⟩
  · rw [map_name_replaceFirst]
    exact h.distinct
  · rcases mem_replaceFirst hx with rfl | hx
    · rw [hname]
      simpa [NameMap.contains] using hpins
    · exact h.unpinned x hx
  · rcases mem_replaceFirst hx with rfl | hx
    · exact ⟨declared, hname ▸ hget, hkind⟩
    · exact h.declared x hx
  · rcases mem_replaceFirst hx with rfl | hx
    · exact hcheck
    · exact h.checked x hx

theorem Formed.pin (h : s.Formed) {name : String} {v : Value α} (hp : s.pin name v = .ok s') :
    s'.Formed := by
  obtain ⟨declared, w, hget, hnormal, rfl⟩ := pin_eq_ok_iff.1 hp
  have hkept : ∀ d ∈ s.dimensions.filter (fun d => d.name != name),
      d ∈ s.dimensions ∧ name ≠ d.name := fun d hd => by
    obtain ⟨hmem, hne⟩ := List.mem_filter.1 hd
    exact ⟨hmem, (bne_iff_ne.1 hne).symm⟩
  refine ⟨h.distinct.sublist (List.filter_sublist.map _), fun d hd => ?_,
    fun d hd => h.declared d (hkept d hd).1, fun d hd => h.checked d (hkept d hd).1, ?_⟩
  · rw [NameMap.get?_insert, if_neg (hkept d hd).2]
    exact h.unpinned d (hkept d hd).1
  · intro k v hv
    rw [NameMap.get?_insert] at hv
    split at hv
    · rename_i hname
      obtain rfl := Option.some.inj hv
      exact ⟨declared, hname ▸ hget, Declaration.kind_normalize hnormal⟩
    · exact h.pinned k v hv

theorem Reached.formed (hnames : schema.names.Nodup)
    (hchecks : ∀ d ∈ schema.declarations, d.check = .ok ()) (h : Reached schema s) : s.Formed := by
  induction h with
  | start => exact formed_ofSchema hnames hchecks
  | override _ ho ih => exact ih.override ho
  | pin _ hp ih => exact ih.pin hp

end Space

end Backtest
