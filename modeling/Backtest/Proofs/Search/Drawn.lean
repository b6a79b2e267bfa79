import Backtest.Proofs.Parameter.Fingerprint
import Backtest.Proofs.Search.Grid

/-!
# What was drawn, from the full parameters

A candidate leaves out what is at its default, and resolving it puts that back: every pin and what
was drawn for each varied parameter can be read off the full parameters. So two candidates with the
same full parameters were drawn alike.
-/

namespace Backtest

open Parameter

/-! ## What resolving a candidate gives back -/

namespace Space

/-- Values for varied parameters, in any order: each under a name of its own and of its kind. -/
structure Draws {α : Type} (s : Space α) (drawn : List (String × Value α)) : Prop where
  distinct : (drawn.map (·.1)).Nodup
  varied : ∀ e ∈ drawn, ∃ d ∈ s.dimensions, e.1 = d.name ∧ e.2.kind = d.domain.kind

theorem Draws.reverse {α : Type} {s : Space α} {drawn : List (String × Value α)}
    (h : s.Draws drawn) : s.Draws drawn.reverse where
  distinct := by rw [List.map_reverse]; exact List.nodup_reverse.2 h.distinct
  varied e he := h.varied e (List.mem_reverse.1 he)

/-- Of values under different names, a candidate holds those that are not at their default. -/
theorem get?_candidate {α : Type} [Scalar α] {s : Space α} {drawn : List (String × Value α)}
    (hnames : ((s.pins.entries ++ drawn).map (·.1)).Nodup) {e : String × Value α}
    (he : e ∈ s.pins.entries ++ drawn) :
    (s.candidate drawn).get? e.1 = if s.isDefault e then none else some e.2 := by
  cases hdefault : s.isDefault e with
  | true =>
    refine NameMap.get?_ofList_eq_none fun hmem => ?_
    obtain ⟨e', he', hname⟩ := List.mem_map.1 hmem
    obtain ⟨hin, hkept⟩ := List.mem_filter.1 he'
    -- the only entry of this name is `e` itself, which is left out
    rw [List.inj_on_of_nodup_map hnames hin he hname, hdefault] at hkept
    cases hkept
  | false =>
    refine NameMap.get?_ofList_of_mem (hnames.sublist (List.filter_sublist.map _)) ?_
    exact List.mem_filter.2 ⟨he, by rw [hdefault]; rfl⟩

variable {s : Space Float} {drawn drawn' : List (String × Value Float)} {r : Assignment Float}

theorem isDefault_iff {e : String × Value Float} {d : Declaration Float}
    (hget : s.schema.get? e.1 = some d) : s.isDefault e = true ↔ d.defaultValue = e.2 := by
  rw [isDefault, hget]
  exact Value.same_iff

/-- Pins and drawn values are under different names. -/
theorem Formed.entries_distinct (hs : s.Formed) (hd : s.Draws drawn) :
    ((s.pins.entries ++ drawn).map (·.1)).Nodup := by
  rw [List.map_append]
  refine List.Nodup.append s.pins.names_nodup hd.distinct fun name hpin hdrawn => ?_
  obtain ⟨e, he, rfl⟩ := List.mem_map.1 hpin
  obtain ⟨e', he', hname⟩ := List.mem_map.1 hdrawn
  obtain ⟨d, hmem, hvaried, -⟩ := hd.varied e' he'
  have hunpinned := hs.unpinned d hmem
  rw [← hvaried, hname, NameMap.mem_entries_iff.1 he] at hunpinned
  cases hunpinned

/-- Pins and drawn values are of the kinds that the schema declares. -/
theorem Formed.entries_declared (hs : s.Formed) (hd : s.Draws drawn) {e : String × Value Float}
    (he : e ∈ s.pins.entries ++ drawn) :
    ∃ declared, s.schema.get? e.1 = some declared ∧ e.2.kind = declared.domain.kind := by
  rcases List.mem_append.1 he with hpin | hdrawn
  · exact hs.pinned e.1 e.2 (NameMap.mem_entries_iff.1 hpin)
  · obtain ⟨d, hmem, hname, hkind⟩ := hd.varied e hdrawn
    obtain ⟨declared, hget, hdeclared⟩ := hs.declared d hmem
    exact ⟨declared, hname ▸ hget, hkind.trans hdeclared⟩

/-- Resolving a candidate gives back every pin and every drawn value. -/
theorem Formed.get?_resolve_candidate (hs : s.Formed) (hnames : s.schema.names.Nodup)
    (hd : s.Draws drawn) (h : s.schema.resolve (s.candidate drawn) = .ok r)
    {e : String × Value Float} (he : e ∈ s.pins.entries ++ drawn) : r.get? e.1 = some e.2 := by
  obtain ⟨declared, hget, hkind⟩ := hs.entries_declared hd he
  rw [Schema.get?_of_resolve hnames h hget]
  have hheld := get?_candidate (hs.entries_distinct hd) he
  rw [← Schema.name_of_get? hget] at hheld
  cases hdefault : s.isDefault e with
  | true =>
    rw [hdefault, if_pos rfl] at hheld
    rw [Schema.settled, hheld, (isDefault_iff hget).1 hdefault]
  | false =>
    rw [hdefault, if_neg Bool.false_ne_true] at hheld
    rw [Schema.settled_of_get? hheld hkind
      ((Schema.resolve_eq_ok h).1 declared (List.mem_of_find?_eq_some hget))]

/-- Candidates with the same full parameters were drawn alike. -/
theorem Formed.eq_of_resolve_eq (hs : s.Formed) (hnames : s.schema.names.Nodup)
    (hd : s.Draws drawn) (hd' : s.Draws drawn')
    (hsame : drawn.map (·.1) = drawn'.map (·.1))
    (h : s.schema.resolve (s.candidate drawn) = .ok r)
    (h' : s.schema.resolve (s.candidate drawn') = .ok r) : drawn = drawn' := by
  have hread : ∀ {l}, s.Draws l → s.schema.resolve (s.candidate l) = .ok r →
      l = (l.map (·.1)).filterMap fun name => (r.get? name).map (name, ·) := by
    intro l hl hresolve
    rw [List.filterMap_map, List.filterMap_congr (g := some) fun e he => ?_, List.filterMap_some]
    have hget := hs.get?_resolve_candidate hnames hl hresolve (List.mem_append_right _ he)
    simp [hget]
  rw [hread hd h, hread hd' h', hsame]

/-! ## Grid points and random draws -/

/-- A value for each of some declarations in turn, under its name and of its kind. -/
def Covers {α : Type} (l : List (String × Value α)) (ds : List (Declaration α)) : Prop :=
  List.Forall₂ (fun e d => e.1 = d.name ∧ e.2.kind = d.domain.kind) l ds

section

variable {α : Type} {s : Space α} {l : List (String × Value α)} {ds : List (Declaration α)}

theorem Covers.map_fst (h : Covers l ds) : l.map (·.1) = ds.map (·.name) := by
  induction h with
  | nil => rfl
  | cons hd _ ih => rw [List.map_cons, List.map_cons, hd.1, ih]

theorem Covers.exists_of_mem (h : Covers l ds) {e : String × Value α} (he : e ∈ l) :
    ∃ d ∈ ds, e.1 = d.name ∧ e.2.kind = d.domain.kind := by
  induction h with
  | nil => cases he
  | cons hd _ ih =>
    rcases List.mem_cons.1 he with rfl | he
    · exact ⟨_, List.mem_cons_self, hd⟩
    · obtain ⟨d, hmem, hd⟩ := ih he
      exact ⟨d, List.mem_cons_of_mem _ hmem, hd⟩

variable [Scalar α]

theorem Covers.draws (h : Covers l s.dimensions) (hs : s.Formed) : s.Draws l where
  distinct := by rw [h.map_fst]; exact hs.distinct
  varied _ := h.exists_of_mem

theorem covers_gridValues (s : Space α) (i : Nat) : Covers (s.gridValues i) s.dimensions := by
  have hzip : ∀ {ks : List Nat} {ds : List (Declaration α)}, ks.length = ds.length →
      Covers (List.zipWith (fun d k => (d.name, d.domain.gridValue k)) ds ks) ds := by
    intro ks ds
    induction ds generalizing ks with
    | nil => exact fun _ => .nil
    | cons d ds ih =>
      intro hlength
      obtain ⟨k, ks, rfl⟩ := List.exists_cons_of_length_eq_add_one hlength
      exact .cons ⟨rfl, d.domain.kind_gridValue k⟩ (ih (Nat.succ.inj hlength))
  exact hzip ((digits_lt _ i).length_eq.trans (List.length_map _))

theorem covers_drawValues [Random.Uniform α] (ds : List (Declaration α)) (g : Random.Generator) :
    Covers (drawValues ds g).1 ds := by
  induction ds generalizing g with
  | nil => exact .nil
  | cons d ds ih => exact .cons ⟨rfl, d.domain.kind_sample g⟩ (ih _)

end

/-- Grid points with the same full parameters carry the same values. -/
theorem Formed.gridValues_eq_of_resolve_eq (hs : s.Formed) (hnames : s.schema.names.Nodup)
    {i j : Nat} (h : s.schema.resolve (s.gridPoint i) = .ok r)
    (h' : s.schema.resolve (s.gridPoint j) = .ok r) : s.gridValues i = s.gridValues j := by
  have hi := covers_gridValues s i
  have hj := covers_gridValues s j
  refine List.reverse_injective (hs.eq_of_resolve_eq hnames (hi.draws hs).reverse
    (hj.draws hs).reverse ?_ h h')
  rw [List.map_reverse, List.map_reverse, hi.map_fst, hj.map_fst]

/-- Random candidates with the same full parameters are the same. -/
theorem Formed.sample_eq_of_resolve_eq (hs : s.Formed) (hnames : s.schema.names.Nodup)
    {g g' : Random.Generator} (h : s.schema.resolve (s.sample g).1 = .ok r)
    (h' : s.schema.resolve (s.sample g').1 = .ok r) : (s.sample g).1 = (s.sample g').1 := by
  have hg := covers_drawValues s.dimensions g
  have hg' := covers_drawValues s.dimensions g'
  exact congrArg s.candidate (hs.eq_of_resolve_eq hnames (hg.draws hs) (hg'.draws hs)
    (hg.map_fst.trans hg'.map_fst.symm) h h')

end Space

end Backtest
