import Backtest.Proofs.Parameter.Draws
import Backtest.Proofs.Search.Drawn

/-!
# Sparse candidates

Whatever overrides and pins lead to a space, each parameter of its schema is varied, inside its
declared range, or pinned to a value of that range. A candidate leaves out what is at its declared
default, not at that of a narrowed range, and resolving it puts back exactly that: it always
resolves, to the pins with the drawn values.
-/

namespace Backtest

open Parameter

/-! ## Ranges inside declared ranges -/

namespace Parameter.Domain

def Inside {α : Type} [Scalar α] : Domain α → Domain α → Prop
  | .int low high _ _, .int dlow dhigh _ _ => dlow ≤ low ∧ high ≤ dhigh
  | .float low high _ _, .float dlow dhigh _ _ => dlow ≤ low ∧ high ≤ dhigh
  | .choice options _, .choice declared _ => options ⊆ declared
  | _, _ => False

variable {d declared : Domain Float}

theorem inside_self (h : d.fault? = none) : d.Inside d := by
  cases d with
  | int low high step value => exact ⟨Int64.le_refl low, Int64.le_refl high⟩
  | float low high step value =>
    obtain ⟨hnlow, hnhigh⟩ := isNaN_bounds h
    exact ⟨(Double.le_iff hnlow hnlow).2 le_rfl, (Double.le_iff hnhigh hnhigh).2 le_rfl⟩
  | choice options value => exact List.Subset.refl options

/-- A narrower range does not span more. -/
theorem Inside.spans (h : d.Inside declared) (hdeclared : declared.Spans) : d.Spans := by
  cases d <;> cases declared <;> try first | exact h.elim | trivial
  simp only [Inside, Int64.le_iff_toInt_le] at h
  rw [spans_int_iff] at hdeclared ⊢
  omega

theorem Inside.admits (h : d.Inside declared) (hd : d.fault? = none)
    (hdeclared : declared.fault? = none) {v : Value Float} (hv : d.Admits v) :
    declared.Admits v := by
  cases d <;> cases declared <;> cases v <;> try first | exact h.elim | exact hv.elim
  case int.int.int =>
    simp only [Inside, Admits, Int64.not_lt] at h hv ⊢
    exact ⟨Int64.le_trans h.1 hv.1, Int64.le_trans hv.2 h.2⟩
  case float.float.float =>
    obtain ⟨hnlow, hnhigh⟩ := isNaN_bounds hd
    obtain ⟨hndlow, hndhigh⟩ := isNaN_bounds hdeclared
    obtain ⟨hn, hbounds⟩ := hv
    simp only [Inside, Double.le_iff hndlow hnlow, Double.le_iff hnhigh hndhigh] at h
    rw [Reading.not_lt_iff hn hnlow, Reading.not_lt_iff hnhigh hn] at hbounds
    simp only [Admits]
    rw [Reading.not_lt_iff hn hndlow, Reading.not_lt_iff hndhigh hn]
    exact ⟨hn, h.1.trans hbounds.1, hbounds.2.trans h.2⟩
  case choice.choice.choice => exact h hv

end Parameter.Domain

namespace Space

variable {schema : Schema Float} {s s' : Space Float} {d declared : Declaration Float}

theorem inside_of_narrow {r : Range Float} (h : narrow declared r = .ok d)
    (hd : d.domain.fault? = none) (hdeclared : declared.domain.fault? = none) :
    d.domain.Inside declared.domain := by
  unfold narrow at h
  cases hdomain : declared.domain with
  | int dlow dhigh dstep value =>
    cases r <;> simp only [hdomain] at h
    · split at h <;> cases h
      rename_i hbounds
      simpa [Domain.Inside, Int64.not_lt] using hbounds
    all_goals cases h
  | float dlow dhigh dstep value =>
    cases r <;> simp only [hdomain] at h
    · cases h
    · split at h <;> cases h
      rename_i hbounds
      obtain ⟨hnlow, hnhigh⟩ := Domain.isNaN_bounds hd
      obtain ⟨hndlow, hndhigh⟩ := Domain.isNaN_bounds (hdomain ▸ hdeclared)
      rw [not_or, Reading.not_lt_iff hnlow hndlow, Reading.not_lt_iff hndhigh hnhigh] at hbounds
      exact ⟨(Double.le_iff hndlow hnlow).2 hbounds.1, (Double.le_iff hnhigh hndhigh).2 hbounds.2⟩
    · cases h
  | choice options value =>
    cases r <;> simp only [hdomain] at h
    · cases h
    · cases h
    · split at h <;> cases h
      rename_i hknown
      intro option hoption
      simpa using List.find?_eq_none.1 hknown option hoption

/-- Each parameter of the schema is varied inside its declared range, in the order of the schema, or
pinned to a value of that range. -/
structure Complete (s : Space Float) : Prop extends s.Formed where
  sound : ∀ d ∈ s.schema.declarations, d.check = .ok ()
  spanned : ∀ d ∈ s.schema.declarations, d.domain.Spans
  order : s.dimensions.map (·.name) = s.schema.names.filter fun name => !s.pins.contains name
  inside : ∀ d ∈ s.dimensions, ∃ declared, s.schema.get? d.name = some declared ∧
    d.domain.Inside declared.domain
  admitted : ∀ name v, s.pins.get? name = some v → ∃ declared, s.schema.get? name = some declared ∧
    declared.domain.Admits v

theorem complete_ofSchema (hnames : schema.names.Nodup)
    (hchecks : ∀ d ∈ schema.declarations, d.check = .ok ())
    (hspans : ∀ d ∈ schema.declarations, d.domain.Spans) : (ofSchema schema).Complete where
  toFormed := formed_ofSchema hnames hchecks
  sound := hchecks
  spanned := hspans
  order := by simp [ofSchema, Schema.names, NameMap.contains, NameMap.get?, NameMap.empty]
  inside d hd := ⟨d, Schema.get?_of_mem hnames hd,
    Domain.inside_self (Declaration.check_eq_ok_iff.1 (hchecks d hd))⟩
  admitted _ _ h := by cases h

theorem Complete.override (h : s.Complete) {o : RangeOverride Float}
    (ho : s.override o = .ok s') : s'.Complete := by
  have hformed := h.toFormed.override ho
  obtain ⟨declared, d, hget, -, hnarrow, hcheck, rfl⟩ := override_eq_ok_iff.1 ho
  have hname := (narrow_eq_ok hnarrow).1
  refine ⟨hformed, h.sound, h.spanned, ?_, fun x hx => ?_, h.admitted⟩
  · rw [map_name_replaceFirst]
    exact h.order
  · rcases mem_replaceFirst hx with rfl | hx
    · refine ⟨declared, ?_, inside_of_narrow hnarrow (Declaration.check_eq_ok_iff.1 hcheck)
        (Declaration.check_eq_ok_iff.1 (h.sound declared (List.mem_of_find?_eq_some hget)))⟩
      rw [hname, Schema.name_of_get? hget]
      exact hget
    · exact h.inside x hx

theorem Complete.pin (h : s.Complete) {name : String} {v : Value Float}
    (hp : s.pin name v = .ok s') : s'.Complete := by
  have hformed := h.toFormed.pin hp
  obtain ⟨declared, w, hget, hnormal, rfl⟩ := pin_eq_ok_iff.1 hp
  refine ⟨hformed, h.sound, h.spanned, ?_, fun d hd => h.inside d (List.mem_filter.1 hd).1, ?_⟩
  · have hnames : (s.dimensions.filter fun d => d.name != name).map (·.name) =
        (s.dimensions.map (·.name)).filter (· != name) := by
      rw [List.filter_map]
      rfl
    rw [hnames, h.order, List.filter_filter]
    refine List.filter_congr fun k _ => ?_
    simp only [NameMap.contains, NameMap.get?_insert]
    by_cases hk : name = k
    · simp [hk]
    · simp [hk, Ne.symm hk]
  · intro k u hu
    rw [NameMap.get?_insert] at hu
    split at hu
    · rename_i hname
      obtain rfl := Option.some.inj hu
      exact ⟨declared, hname ▸ hget, Declaration.admits_of_normalize hnormal⟩
    · exact h.admitted k u hu

theorem Reached.complete (hnames : schema.names.Nodup)
    (hchecks : ∀ d ∈ schema.declarations, d.check = .ok ())
    (hspans : ∀ d ∈ schema.declarations, d.domain.Spans) (h : Reached schema s) :
    s.Complete := by
  induction h with
  | start => exact complete_ofSchema hnames hchecks hspans
  | override _ ho ih => exact ih.override ho
  | pin _ hp ih => exact ih.pin hp

/-! ## Values for the varied parameters -/

/-- A value for each of some declarations in turn, under its name and from its range. -/
def Fills (values : List (String × Value Float)) (ds : List (Declaration Float)) : Prop :=
  List.Forall₂ (fun e d => e.1 = d.name ∧ d.domain.Admits e.2) values ds

variable {values drawn : List (String × Value Float)} {ds : List (Declaration Float)}

theorem Fills.covers (h : Fills values ds) : Covers values ds :=
  h.imp fun _ _ ⟨hname, hadmits⟩ => ⟨hname, hadmits.kind_eq⟩

theorem Fills.exists_of_mem (h : Fills values ds) {e : String × Value Float} (he : e ∈ values) :
    ∃ d ∈ ds, e.1 = d.name ∧ d.domain.Admits e.2 := by
  induction h with
  | nil => cases he
  | cons hd _ ih =>
    rcases List.mem_cons.1 he with rfl | he
    · exact ⟨_, List.mem_cons_self, hd⟩
    · obtain ⟨d, hmem, hd⟩ := ih he
      exact ⟨d, List.mem_cons_of_mem _ hmem, hd⟩

theorem Complete.fault?_eq_none (h : s.Complete) (hd : d ∈ s.dimensions) :
    d.domain.fault? = none :=
  Declaration.check_eq_ok_iff.1 (h.checked d hd)

theorem Complete.spans (h : s.Complete) (hd : d ∈ s.dimensions) : d.domain.Spans := by
  obtain ⟨declared, hget, hinside⟩ := h.inside d hd
  exact hinside.spans (h.spanned declared (List.mem_of_find?_eq_some hget))

theorem Complete.fills_gridValues (h : s.Complete) (i : ℕ) :
    Fills (s.gridValues i) s.dimensions := by
  have hzip : ∀ {ks : List ℕ} {ds : List (Declaration Float)}, ds ⊆ s.dimensions →
      List.Forall₂ (fun k d => k < max d.domain.gridLength 1) ks ds →
      Fills (List.zipWith (fun d k => (d.name, d.domain.gridValue k)) ds ks) ds := by
    intro ks ds hds hks
    induction hks with
    | nil => exact .nil
    | cons hk _ ih =>
      obtain ⟨hd, hrest⟩ := List.cons_subset.1 hds
      exact .cons ⟨rfl, Domain.admits_gridValue (h.fault?_eq_none hd) (h.spans hd) hk⟩ (ih hrest)
  exact hzip (List.Subset.refl _) (digits_lt_gridLength s i)

theorem Complete.fills_drawValues [Random.Uniform Float] (h : s.Complete)
    (hdraws : Random.Uniform.StaysInside Float) (g : Random.Generator) :
    Fills (drawValues s.dimensions g).1 s.dimensions := by
  have hall : ∀ {ds : List (Declaration Float)}, ds ⊆ s.dimensions → ∀ g,
      Fills (drawValues ds g).1 ds := by
    intro ds hds
    induction ds with
    | nil => exact fun _ => .nil
    | cons d ds ih =>
      obtain ⟨hd, hrest⟩ := List.cons_subset.1 hds
      exact fun g =>
        .cons ⟨rfl, Domain.admits_sample hdraws (h.fault?_eq_none hd) (h.spans hd) g⟩ (ih hrest _)
  exact hall (List.Subset.refl _) g

/-! ## Resolving a candidate -/

/-- Pins and drawn values are values of the declared ranges. -/
theorem Complete.exists_declared (hs : s.Complete) (h : Fills values s.dimensions)
    {e : String × Value Float} (he : e ∈ s.pins.entries ++ values) :
    ∃ declared, s.schema.get? e.1 = some declared ∧ declared.domain.Admits e.2 := by
  rcases List.mem_append.1 he with hpin | hvalue
  · exact hs.admitted e.1 e.2 (NameMap.mem_entries_iff.1 hpin)
  · obtain ⟨d, hd, hname, hadmits⟩ := h.exists_of_mem hvalue
    obtain ⟨declared, hget, hinside⟩ := hs.inside d hd
    have hdeclared := Declaration.check_eq_ok_iff.1
      (hs.sound declared (List.mem_of_find?_eq_some hget))
    exact ⟨declared, hname ▸ hget, hinside.admits (hs.fault?_eq_none hd) hdeclared hadmits⟩

/-- A name of the schema is that of a pin or of a drawn value. -/
theorem Complete.mem_names (hs : s.Complete) (h : Fills values s.dimensions)
    (hd : d ∈ s.schema.declarations) : d.name ∈ (s.pins.entries ++ values).map (·.1) := by
  rw [List.map_append, h.covers.map_fst, hs.order, List.mem_append, List.mem_filter]
  have hname : d.name ∈ s.schema.names := List.mem_map_of_mem hd
  cases hpinned : s.pins.get? d.name with
  | none => exact .inr ⟨hname, by simp [NameMap.contains, hpinned]⟩
  | some v => exact .inl (List.mem_map_of_mem (NameMap.mem_entries_iff.2 hpinned : (d.name, v) ∈ _))

theorem Complete.resolve_candidate (hs : s.Complete) (hnames : s.schema.names.Nodup)
    (h : Fills values s.dimensions) :
    s.schema.resolve (s.candidate values) = .ok (NameMap.ofList (s.pins.entries ++ values)) := by
  have hdraws := h.covers.draws hs.toFormed
  have hvalid : s.schema.validate (s.candidate values) = .ok () := by
    refine Schema.validate_eq_ok_iff.2 fun e he => ?_
    obtain ⟨hmem, -⟩ := List.mem_filter.1 (NameMap.mem_of_mem_ofList he)
    obtain ⟨declared, hget, hadmits⟩ := hs.exists_declared h hmem
    exact ⟨declared, hget, e.2, Declaration.normalize_of_admits hadmits⟩
  have hresolve := Schema.resolve_of_validate hnames hvalid
  refine hresolve.trans (congrArg _ (NameMap.ext_get? fun k => ?_))
  by_cases hk : k ∈ (s.pins.entries ++ values).map (·.1)
  · obtain ⟨e, he, rfl⟩ := List.mem_map.1 hk
    rw [hs.get?_resolve_candidate hnames hdraws hresolve he,
      NameMap.get?_ofList_of_mem (hs.entries_distinct hdraws) he]
  · rw [NameMap.get?_ofList_eq_none hk, NameMap.get?_ofList_eq_none]
    intro hmem
    rw [List.map_map] at hmem
    obtain ⟨d, hd, rfl⟩ := List.mem_map.1 hmem
    exact hk (hs.mem_names h hd)

/-- The candidate of a grid point is built last parameter first, which does not matter. -/
theorem Complete.gridPoint_eq (hs : s.Complete) (i : ℕ) :
    s.gridPoint i = s.candidate (s.gridValues i) := by
  have hdraws := ((hs.fills_gridValues i).covers.draws hs.toFormed).reverse
  have hnames := hs.entries_distinct hdraws
  exact NameMap.ofList_eq_of_perm (hnames.sublist (List.filter_sublist.map _))
    (((List.reverse_perm _).append_left _).filter _)

instance : DecidableEq (Value Float) := fun _ _ => decidable_of_iff _ Value.same_iff

theorem Complete.size_candidate (hs : s.Complete) (h : Fills values s.dimensions) :
    (s.candidate values).size = ((s.pins.entries ++ values).filter fun e =>
      (s.schema.get? e.1).map (·.defaultValue) ≠ some e.2).length := by
  have hnames := hs.entries_distinct (h.covers.draws hs.toFormed)
  have hkept : (s.pins.entries ++ values).filter (fun e => !s.isDefault e) =
      (s.pins.entries ++ values).filter fun e =>
        (s.schema.get? e.1).map (·.defaultValue) ≠ some e.2 := by
    refine List.filter_congr fun e he => ?_
    obtain ⟨declared, hget, -⟩ := hs.exists_declared h he
    rw [Bool.eq_iff_iff, Bool.not_eq_true', ← Bool.not_eq_true, isDefault_iff hget]
    simp [hget]
  rw [← hkept]
  exact (NameMap.entries_ofList_perm (hnames.sublist (List.filter_sublist.map _))).length_eq

/-- What a candidate is drawn from: a value from the range of each varied parameter, in the order of
the schema. It resolves to the pins with these values, and holds those of them that are not at their
declared default. -/
structure Restores (s : Space Float) (values : List (String × Value Float))
    (candidate : Assignment Float) : Prop where
  fills : Fills values s.dimensions
  resolve : s.schema.resolve candidate = .ok (NameMap.ofList (s.pins.entries ++ values))
  size : candidate.size = ((s.pins.entries ++ values).filter fun e =>
    (s.schema.get? e.1).map (·.defaultValue) ≠ some e.2).length

theorem Complete.restores (hs : s.Complete) (hnames : s.schema.names.Nodup)
    (h : Fills values s.dimensions) : s.Restores values (s.candidate values) :=
  ⟨h, hs.resolve_candidate hnames h, hs.size_candidate h⟩

/-- In a space that overrides and pins lead to from a schema of different names, whose integer
bounds are not too far apart, each parameter is either varied, in the order of the schema and inside
its declared range, or pinned to a value of that range. Every candidate, of a grid index or of a
random draw that stays between its bounds, resolves to the pins with the drawn values, and holds as
many entries as there are values among them that are not the declared default. -/
theorem candidate_restores (hnames : schema.names.Nodup)
    (hchecks : ∀ d ∈ schema.declarations, d.check = .ok ())
    (hspans : ∀ d ∈ schema.declarations, d.domain.Spans) (h : Reached schema s) :
    (s.dimensions.map (·.name) = (schema.names.filter fun name => !s.pins.contains name) ∧
      (∀ d ∈ s.dimensions, ∃ declared, schema.get? d.name = some declared ∧
        d.domain.Inside declared.domain) ∧
      ∀ name v, s.pins.get? name = some v → ∃ declared, schema.get? name = some declared ∧
        declared.domain.Admits v) ∧
    s.schema = schema ∧
    (∀ i, s.Restores (s.gridValues i) (s.gridPoint i)) ∧
    ∀ [Random.Uniform Float], Random.Uniform.StaysInside Float → ∀ g,
      s.Restores (drawValues s.dimensions g).1 (s.sample g).1 := by
  have hs := h.complete hnames hchecks hspans
  have hschema := h.schema_eq
  have hdistinct : s.schema.names.Nodup := hschema ▸ hnames
  refine ⟨⟨hschema ▸ hs.order, hschema ▸ hs.inside, hschema ▸ hs.admitted⟩, hschema, fun i => ?_,
    fun hdraws g => hs.restores hdistinct (hs.fills_drawValues hdraws g)⟩
  rw [hs.gridPoint_eq]
  exact hs.restores hdistinct (hs.fills_gridValues i)

def gauge : Schema Float where
  declarations := [.int "span" 1 9 2 5, .float "level" 0 1 0.25 0.5,
    .choice "side" ["up", "down"] "up"]

def narrowGauge : Space Float where
  schema := gauge
  dimensions := [.int "span" 3 9 3 5, .float "level" 0.25 1 0.25 0.5]
  pins := .ofList [("side", .choice "down")]

@[reducible]
def heldDraws : Random.Uniform Float where
  between low high g :=
    let (x, g) := Random.Uniform.between low high g
    (if Scalar.isNaN x = false ∧ ¬x < low ∧ ¬high < x then x else low, g)

theorem heldDraws_staysInside : @Random.Uniform.StaysInside Float _ heldDraws := by
  intro low high g hlow hhigh hlt
  have hnlow := Reading.isNaN_of_isFinite hlow
  have hnhigh := Reading.isNaN_of_isFinite hhigh
  have hheld : (@Random.Uniform.between Float heldDraws low high g).1 =
      if Scalar.isNaN (Random.Uniform.between low high g).1 = false ∧
        ¬(Random.Uniform.between low high g).1 < low ∧ ¬high < (Random.Uniform.between low high g).1
      then (Random.Uniform.between low high g).1 else low := rfl
  rw [hheld]
  split
  · assumption
  · rw [Reading.lt_iff hnlow hnhigh] at hlt
    exact ⟨hnlow, (Reading.not_lt_iff hnlow hnlow).2 le_rfl,
      (Reading.not_lt_iff hnhigh hnlow).2 hlt.le⟩

/-- Of the three values at this index, the level alone is at its default. -/
theorem candidate_restores_gauge :
    gauge.names.Nodup ∧ (∀ d ∈ gauge.declarations, d.check = .ok ()) ∧
      (∀ d ∈ gauge.declarations, d.domain.Spans) ∧ Reached gauge narrowGauge ∧
      @Random.Uniform.StaysInside Float _ heldDraws ∧
      narrowGauge.gridValues 5 = [("span", .int 6), ("level", .float 0.5)] ∧
      narrowGauge.Restores (narrowGauge.gridValues 5) (narrowGauge.gridPoint 5) ∧
      (narrowGauge.gridPoint 5).size = 2 ∧
      (@drawValues Float _ heldDraws narrowGauge.dimensions (.ofSeed 42)).1 =
        (drawValues narrowGauge.dimensions (.ofSeed 42)).1 ∧
      narrowGauge.Restores (@drawValues Float _ heldDraws narrowGauge.dimensions (.ofSeed 42)).1
        (@sample Float _ heldDraws narrowGauge (.ofSeed 42)).1 := by
  have hnames : gauge.names.Nodup := by decide
  have hchecks : ∀ d ∈ gauge.declarations, d.check = .ok () := by
    simp only [gauge, List.forall_mem_cons]
    exact ⟨rfl, rfl, rfl, nofun⟩
  have hspans : ∀ d ∈ gauge.declarations, d.domain.Spans := by decide
  have hranged : Reached gauge { narrowGauge with
      dimensions := narrowGauge.dimensions ++ [.choice "side" ["up", "down"] "up"]
      pins := .empty } :=
    .override (.override .start (o := ⟨"span", .int 3 9 3⟩) rfl)
      (o := ⟨"level", .float 0.25 1 0.25⟩) rfl
  have hreached : Reached gauge narrowGauge :=
    .pin hranged (show pin _ "side" (.choice "down") = .ok narrowGauge from rfl)
  obtain ⟨-, -, hgrid, hdraws⟩ := candidate_restores hnames hchecks hspans hreached
  exact ⟨hnames, hchecks, hspans, hreached, heldDraws_staysInside, by decide +kernel, hgrid 5,
    by decide +kernel, by decide +kernel, @hdraws heldDraws heldDraws_staysInside (.ofSeed 42)⟩

end Space

end Backtest
