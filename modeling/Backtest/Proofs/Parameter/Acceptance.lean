import Backtest.Proofs.Parameter.Domain

/-!
# What a schema accepts

A range admits the values of its kind inside its bounds. What a declaration accepts it turns into an
admitted value, and an admitted value it leaves as it is. So a schema resolves an assignment exactly
when it knows each name and accepts each value; where the defaults are admitted too, the result has
an admitted value for every parameter and can be resolved again.
-/

namespace Backtest

namespace Parameter

variable {α : Type} [Scalar α]

def Domain.Admits : Domain α → Value α → Prop
  | .int low high _ _, .int n => ¬n < low ∧ ¬high < n
  | .float low high _ _, .float x => Scalar.isNaN x = false ∧ ¬x < low ∧ ¬high < x
  | .choice options _, .choice c => c ∈ options
  | _, _ => False

instance (d : Domain α) (v : Value α) : Decidable (d.Admits v) :=
  match d, v with
  | .int .., .int _ | .float .., .float _ | .choice .., .choice _ => by
    unfold Domain.Admits; infer_instance
  | .int .., .float _ | .int .., .choice _ | .float .., .int _ | .float .., .choice _
  | .choice .., .int _ | .choice .., .float _ => isFalse not_false

theorem Domain.Admits.kind_eq {d : Domain α} {v : Value α} (h : d.Admits v) : v.kind = d.kind := by
  cases d <;> cases v <;> first | rfl | exact h.elim

namespace Domain

theorem ite_some_eq_none_iff {β : Type} {p : Prop} [Decidable p] {b : β} {o : Option β} :
    (if p then some b else o) = none ↔ ¬p ∧ o = none := by
  by_cases h : p <;> simp [h]

theorem fault?_int_eq_none_iff {low high step value : Int64} :
    (int low high step value : Domain α).fault? = none ↔
      ¬high < low ∧ ¬step ≤ 0 ∧ ¬value < low ∧ ¬high < value := by
  simp only [fault?, ite_some_eq_none_iff, not_or, and_true]

theorem bounds_of_fault?_int {low high step value : Int64}
    (h : (int low high step value : Domain α).fault? = none) :
    low.toInt ≤ high.toInt ∧ 0 < step.toInt := by
  obtain ⟨hordered, hstep, -⟩ := fault?_int_eq_none_iff.1 h
  exact bounds_iff.1 (not_or.2 ⟨hordered, hstep⟩)

theorem fault?_float_eq_none_iff {low high step value : α} :
    (float low high step value).fault? = none ↔
      (Scalar.isFinite low = true ∧ Scalar.isFinite high = true ∧ Scalar.isFinite step = true) ∧
        ¬high < low ∧ ¬step ≤ Scalar.nat 0 ∧ ¬value < low ∧ ¬high < value := by
  simp only [fault?, ite_some_eq_none_iff, not_or, and_true, Bool.not_eq_true', Bool.not_eq_false,
    Bool.and_eq_true, and_assoc]

theorem fault?_choice_eq_none_iff {options : List String} {value : String} :
    (choice options value : Domain α).fault? = none ↔ options ≠ [] ∧ value ∈ options := by
  simp [fault?, ite_some_eq_none_iff]

end Domain

namespace Declaration

variable {d : Declaration α} {v w : Value α}

theorem normalize_of_admits (h : d.domain.Admits v) : d.normalize v = .ok v := by
  unfold normalize
  cases hdomain : d.domain <;> cases v <;> rw [hdomain] at h
  case int.int => simp_all [Domain.Admits, Value.int?]
  case float.float => simp_all [Domain.Admits, Value.number?]
  case choice.choice => simp_all [Domain.Admits]
  all_goals exact h.elim

theorem admits_of_normalize (h : d.normalize v = .ok w) : d.domain.Admits w := by
  rcases normalize_cases h with ⟨_, _, _, _, n, hdomain, -, hlow, hhigh, rfl⟩ |
    ⟨_, _, _, _, x, hdomain, -, hnan, hlow, hhigh, rfl⟩ | ⟨_, _, c, hdomain, -, hc, rfl⟩
  · rw [hdomain]
    exact ⟨hlow, hhigh⟩
  · rw [hdomain]
    exact ⟨hnan, hlow, hhigh⟩
  · rw [hdomain]
    exact hc

end Declaration

namespace Schema

variable {s : Schema α} {a r : Assignment α} {d : Declaration α}

theorem validate_eq_ok_iff :
    s.validate a = .ok () ↔
      ∀ e ∈ a.entries, ∃ d, s.get? e.1 = some d ∧ ∃ w, d.normalize e.2 = .ok w := by
  rw [validate, forM_eq_ok_iff]
  refine forall₂_congr fun (name, v) _ => ?_
  dsimp only
  cases s.get? name with
  | none => simp
  | some d => cases hnormal : d.normalize v <;> simp [hnormal, Except.map]

/-- Of parameters with different names, each settles if all that is assigned is accepted. -/
theorem settle_of_validate (hnames : s.names.Nodup) (h : s.validate a = .ok ())
    (hd : d ∈ s.declarations) : settle a d = .ok (d.name, settled a d) := by
  unfold settle settled
  cases hget : a.get? d.name with
  | none => rfl
  | some v =>
    obtain ⟨d', hd', w, hw⟩ := validate_eq_ok_iff.1 h (d.name, v) (NameMap.mem_entries_iff.2 hget)
    obtain rfl := Option.some.inj ((get?_of_mem hnames hd).symm.trans hd')
    simp only at hw
    simp [hw, Except.map, Except.toOption]

theorem resolve_of_validate (hnames : s.names.Nodup) (h : s.validate a = .ok ()) :
    s.resolve a = .ok (NameMap.ofList (s.declarations.map fun d => (d.name, settled a d))) := by
  simp only [resolve, bind_eq_ok_iff, pure_eq_ok_iff]
  exact ⟨(), h, _, mapM_of_forall fun d hd => settle_of_validate hnames h hd, rfl⟩

theorem exists_resolve_iff (hnames : s.names.Nodup) :
    (∃ r, s.resolve a = .ok r) ↔ s.validate a = .ok () := by
  constructor
  · rintro ⟨r, h⟩
    simp only [resolve, bind_eq_ok_iff] at h
    obtain ⟨_, hvalid, -⟩ := h
    exact hvalid
  · exact fun h => ⟨_, resolve_of_validate hnames h⟩

/-- What a result holds is what its declared parameters settled on. -/
theorem exists_of_mem_resolved (hnames : s.names.Nodup) (h : s.resolve a = .ok r)
    {e : String × Value α} (he : e ∈ r.entries) :
    ∃ d ∈ s.declarations, s.get? e.1 = some d ∧ e = (d.name, settled a d) := by
  rw [(resolve_eq_ok h).2] at he
  obtain ⟨d, hd, rfl⟩ := List.mem_map.1 (NameMap.mem_of_mem_ofList he)
  exact ⟨d, hd, get?_of_mem hnames hd, rfl⟩

/-- A result of admitted values is resolved again, and stays the same. -/
theorem resolve_of_admits_settled (hnames : s.names.Nodup) (h : s.resolve a = .ok r)
    (hadmits : ∀ d ∈ s.declarations, d.domain.Admits (settled a d)) : s.resolve r = .ok r := by
  have hvalid : s.validate r = .ok () := by
    refine validate_eq_ok_iff.2 fun e he => ?_
    obtain ⟨d, hd, hget, rfl⟩ := exists_of_mem_resolved hnames h he
    exact ⟨d, hget, _, Declaration.normalize_of_admits (hadmits d hd)⟩
  have hagain := resolve_of_validate hnames hvalid
  rw [hagain, resolve_idem h hagain]

/-- Different names, each with an admitted default. -/
structure Sound (s : Schema α) : Prop where
  distinct : s.names.Nodup
  defaults : ∀ d ∈ s.declarations, d.domain.Admits d.defaultValue

theorem Sound.admits_settled (hs : s.Sound) (h : s.resolve a = .ok r) (hd : d ∈ s.declarations) :
    d.domain.Admits (settled a d) := by
  obtain ⟨-, ⟨-, hvalue⟩ | ⟨v, -, hnormal⟩⟩ := settle_cases ((resolve_eq_ok h).1 d hd)
  · exact hvalue ▸ hs.defaults d hd
  · exact Declaration.admits_of_normalize hnormal

/-- Every parameter has an admitted value in what was resolved. -/
theorem Sound.exists_get? (hs : s.Sound) (h : s.resolve a = .ok r) (hd : d ∈ s.declarations) :
    ∃ v, r.get? d.name = some v ∧ d.domain.Admits v :=
  ⟨_, get?_of_resolve hs.distinct h (get?_of_mem hs.distinct hd), hs.admits_settled h hd⟩

/-- What was resolved is resolved again, and stays the same. -/
theorem Sound.resolve_resolved (hs : s.Sound) (h : s.resolve a = .ok r) : s.resolve r = .ok r :=
  resolve_of_admits_settled hs.distinct h fun _ hd => hs.admits_settled h hd

end Schema

end Parameter

/-- A strategy's conditions hold of what was resolved once, so they hold again. -/
theorem Strategy.resolve_resolved {α : Type} [Scalar α] {strategy : Strategy α}
    {a r : Parameter.Assignment α} (hs : strategy.schema.Sound)
    (h : strategy.resolve a = .ok r) : strategy.resolve r = .ok r := by
  simp only [resolve, bind_eq_ok_iff, pure_eq_ok_iff] at h ⊢
  obtain ⟨full, hfull, u, hconstrain, rfl⟩ := h
  exact ⟨full, hs.resolve_resolved hfull, u, hconstrain, rfl⟩

end Backtest
