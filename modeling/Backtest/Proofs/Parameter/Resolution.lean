import Backtest.Proofs.NameMap
import Backtest.Proofs.Outcome
import Backtest.Strategy.Basic

/-!
# Resolving parameters twice

A declaration that accepts a value of its own kind leaves it as it is, and both defaults and
accepted values are of the declared kind. So an assignment that was resolved once is not changed by
being resolved again.
-/

namespace Backtest

variable {α : Type} [Scalar α]

namespace Parameter

omit [Scalar α] in
@[simp] theorem Declaration.kind_defaultValue (d : Declaration α) :
    d.defaultValue.kind = d.domain.kind := by
  unfold Declaration.defaultValue
  cases d.domain <;> rfl

/-- What a declaration accepts, and as what. -/
theorem Declaration.normalize_cases {d : Declaration α} {v w : Value α}
    (h : d.normalize v = .ok w) :
    (∃ low high step value n, d.domain = .int low high step value ∧ v.int? = some n ∧
      ¬n < low ∧ ¬high < n ∧ w = .int n) ∨
    (∃ low high step value x, d.domain = .float low high step value ∧ v.number? = some x ∧
      Scalar.isNaN x = false ∧ ¬x < low ∧ ¬high < x ∧ w = .float x) ∨
    ∃ options value c, d.domain = .choice options value ∧ v = .choice c ∧ c ∈ options ∧
      w = .choice c := by
  unfold normalize at h
  cases hdomain : d.domain with
  | int low high step value =>
    simp only [hdomain] at h
    split at h
    · cases h
    · rename_i n hn
      split at h <;> cases h
      rename_i hbounds
      obtain ⟨hlow, hhigh⟩ := not_or.1 hbounds
      exact .inl ⟨low, high, step, value, n, rfl, hn, hlow, hhigh, rfl⟩
  | float low high step value =>
    simp only [hdomain] at h
    split at h
    · cases h
    · rename_i x hx
      split at h
      · cases h
      · rename_i hnan
        split at h <;> cases h
        rename_i hbounds
        obtain ⟨hlow, hhigh⟩ := not_or.1 hbounds
        exact .inr (.inl ⟨low, high, step, value, x, rfl, hx, Bool.eq_false_of_not_eq_true hnan,
          hlow, hhigh, rfl⟩)
  | choice options value =>
    simp only [hdomain] at h
    split at h
    · rename_i c
      split at h <;> cases h
      rename_i hc
      exact .inr (.inr ⟨options, value, c, rfl, rfl, List.contains_iff_mem.1 hc, rfl⟩)
    · cases h

theorem Declaration.kind_normalize {d : Declaration α} {v w : Value α}
    (h : d.normalize v = .ok w) : w.kind = d.domain.kind := by
  rcases normalize_cases h with ⟨_, _, _, _, n, hdomain, -, -, -, rfl⟩ |
    ⟨_, _, _, _, x, hdomain, -, -, -, -, rfl⟩ | ⟨_, _, c, hdomain, -, -, rfl⟩
  all_goals
    rw [hdomain]
    rfl

/-- A value of the declared kind is accepted as it is. -/
theorem Declaration.normalize_of_kind {d : Declaration α} {v w : Value α}
    (hkind : v.kind = d.domain.kind) (h : d.normalize v = .ok w) : w = v := by
  rcases normalize_cases h with ⟨_, _, _, _, n, hdomain, hn, -, -, rfl⟩ |
    ⟨_, _, _, _, x, hdomain, hx, -, -, -, rfl⟩ | ⟨_, _, c, hdomain, rfl, -, rfl⟩
  · rw [hdomain] at hkind
    cases v with
    | int m => exact congrArg Value.int (Option.some.inj hn).symm
    | float y => cases hkind
    | choice c => cases hkind
  · rw [hdomain] at hkind
    cases v with
    | int m => cases hkind
    | float y => exact congrArg Value.float (Option.some.inj hx).symm
    | choice c => cases hkind
  · rfl

namespace Schema

variable {s : Schema α} {a r r' : Assignment α} {d : Declaration α}

def settled (a : Assignment α) (d : Declaration α) : Value α :=
  match a.get? d.name with
  | some v => (d.normalize v).toOption.getD v
  | none => d.defaultValue

/-- A parameter settles on its default, or on the assigned value as it was accepted. -/
theorem settle_cases {e : String × Value α} (h : settle a d = .ok e) :
    e = (d.name, settled a d) ∧ ((a.get? d.name = none ∧ settled a d = d.defaultValue) ∨
      ∃ v, a.get? d.name = some v ∧ d.normalize v = .ok (settled a d)) := by
  unfold settle at h
  unfold settled
  cases hget : a.get? d.name with
  | none =>
    simp only [hget] at h
    cases h
    exact ⟨rfl, .inl ⟨rfl, rfl⟩⟩
  | some v =>
    simp only [hget] at h
    cases hnormal : d.normalize v with
    | error e => simp [hnormal, Except.map] at h
    | ok w =>
      rw [hnormal] at h
      cases h
      simp [hnormal, Except.toOption]

theorem settle_eq_ok {e : String × Value α} (h : settle a d = .ok e) :
    e = (d.name, settled a d) ∧ (settled a d).kind = d.domain.kind := by
  obtain ⟨he, ⟨-, hvalue⟩ | ⟨v, -, hnormal⟩⟩ := settle_cases h
  · exact ⟨he, hvalue ▸ d.kind_defaultValue⟩
  · exact ⟨he, Declaration.kind_normalize hnormal⟩

theorem resolve_eq_ok (h : s.resolve a = .ok r) :
    (∀ d ∈ s.declarations, settle a d = .ok (d.name, settled a d)) ∧
      r = NameMap.ofList (s.declarations.map fun d => (d.name, settled a d)) := by
  simp only [resolve, bind_eq_ok_iff, pure_eq_ok_iff] at h
  obtain ⟨-, -, entries, hentries, rfl⟩ := h
  obtain ⟨hall, rfl⟩ := mapM_eq_ok (fun d e hd => (settle_eq_ok hd).1) hentries
  exact ⟨hall, rfl⟩

/-- A name holds what its last declaration settles on. -/
theorem get?_of_resolve_eq_ok (h : s.resolve a = .ok r) (k : String) :
    r.get? k = (s.declarations.reverse.find? fun d => d.name == k).map (settled a) := by
  rw [(resolve_eq_ok h).2, NameMap.get?_ofList, ← List.map_reverse, List.find?_map, Option.map_map]
  rfl

omit [Scalar α] in
theorem name_of_get? {name : String} (h : s.get? name = some d) : d.name = name := by
  simpa using List.find?_some h

omit [Scalar α] in
theorem get?_of_mem (hnames : s.names.Nodup) (hd : d ∈ s.declarations) :
    s.get? d.name = some d := by
  cases hfind : s.get? d.name with
  | none => exact absurd (List.find?_eq_none.1 hfind d hd) (by simp)
  | some found =>
    rw [List.inj_on_of_nodup_map hnames (List.mem_of_find?_eq_some hfind) hd (name_of_get? hfind)]

theorem get?_of_resolve (hnames : s.names.Nodup) (h : s.resolve a = .ok r) {name : String}
    (hget : s.get? name = some d) : r.get? name = some (settled a d) := by
  have hd : d ∈ s.declarations := List.mem_of_find?_eq_some hget
  rw [(resolve_eq_ok h).2, ← name_of_get? hget]
  refine NameMap.get?_ofList_of_mem ?_ (List.mem_map_of_mem hd)
  simpa [Function.comp_def, names] using hnames

theorem settled_of_get? {v : Value α} (hget : a.get? d.name = some v)
    (hkind : v.kind = d.domain.kind) (h : settle a d = .ok (d.name, settled a d)) :
    settled a d = v := by
  obtain ⟨-, ⟨hnone, -⟩ | ⟨v', hget', hnormal⟩⟩ := settle_cases h
  · cases hnone.symm.trans hget
  · cases hget'.symm.trans hget
    exact Declaration.normalize_of_kind hkind hnormal

/-- Resolving what was resolved changes nothing. -/
theorem resolve_idem (h : s.resolve a = .ok r) (h' : s.resolve r = .ok r') : r' = r := by
  obtain ⟨hall, -⟩ := resolve_eq_ok h
  obtain ⟨hall', -⟩ := resolve_eq_ok h'
  -- of declarations that share a name the last one decides, both times
  refine NameMap.ext_get? fun k => ?_
  have hget := get?_of_resolve_eq_ok h k
  rw [get?_of_resolve_eq_ok h', hget]
  cases hfind : s.declarations.reverse.find? fun d => d.name == k with
  | none => rfl
  | some d =>
    have hname : d.name = k := by simpa using List.find?_some hfind
    have hd : d ∈ s.declarations := List.mem_reverse.1 (List.mem_of_find?_eq_some hfind)
    rw [hfind, ← hname] at hget
    exact congrArg some (settled_of_get? hget (settle_eq_ok (hall d hd)).2 (hall' d hd))

end Schema

end Parameter

/-- A strategy's own conditions change no value. -/
theorem Strategy.schema_resolve_eq_ok {strategy : Strategy α} {a r : Parameter.Assignment α}
    (h : strategy.resolve a = .ok r) : strategy.schema.resolve a = .ok r := by
  simp only [resolve, bind_eq_ok_iff, pure_eq_ok_iff] at h
  obtain ⟨_, hfull, _, -, rfl⟩ := h
  exact hfull

/-- What a strategy resolves meets its own conditions. -/
theorem Strategy.constrain_eq_ok {strategy : Strategy α} {a r : Parameter.Assignment α}
    (h : strategy.resolve a = .ok r) : strategy.constrain r = .ok () := by
  simp only [resolve, bind_eq_ok_iff, pure_eq_ok_iff] at h
  obtain ⟨_, -, _, hconstrain, rfl⟩ := h
  exact hconstrain

theorem Strategy.resolve_idem {strategy : Strategy α} {a r r' : Parameter.Assignment α}
    (h : strategy.resolve a = .ok r) (h' : strategy.resolve r = .ok r') : r' = r :=
  Parameter.Schema.resolve_idem (schema_resolve_eq_ok h) (schema_resolve_eq_ok h')

end Backtest
