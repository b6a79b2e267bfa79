import Backtest.Proofs.Parameter.Acceptance
import Backtest.Proofs.Parameter.Domain
import Backtest.Scalar.Double

/-!
# What is refused the second time

A range without a fault admits its default, unless this is a NaN: a NaN is below no bound and above
none, so a range takes it for a default, but not for a value. An assignment that leaves such a
parameter out is resolved once, and what it was resolved to is refused there. Every other result is
resolved to itself.
-/

namespace Backtest.Parameter

variable {α : Type} [Scalar α]

/-- The default is a NaN, which the bounds do not keep out. -/
def Domain.DefaultsToNaN : Domain α → Prop
  | .float _ _ _ value => Scalar.isNaN value = true
  | _ => False

theorem Domain.admits_defaultValue_iff {d : Domain α} (h : d.fault? = none) :
    d.Admits d.defaultValue ↔ ¬d.DefaultsToNaN := by
  cases d with
  | int low high step value =>
    obtain ⟨-, -, hinside⟩ := fault?_int_eq_none_iff.1 h
    exact ⟨fun _ => not_false, fun _ => hinside⟩
  | float low high step value =>
    obtain ⟨-, -, -, hinside⟩ := fault?_float_eq_none_iff.1 h
    simp only [defaultValue, Admits, DefaultsToNaN, Bool.not_eq_true, and_iff_left hinside]
  | choice options value =>
    exact ⟨fun _ => not_false, fun _ => (fault?_choice_eq_none_iff.1 h).2⟩

namespace Declaration

variable {d : Declaration α}

theorem normalize_self_iff {v : Value α} : d.normalize v = .ok v ↔ d.domain.Admits v :=
  ⟨admits_of_normalize, normalize_of_admits⟩

/-- A NaN is no number of a range. -/
theorem normalize_default_of_nan (h : d.domain.DefaultsToNaN) :
    d.normalize d.defaultValue = .error (.typeMismatch d.name .float d.defaultValue) := by
  unfold normalize defaultValue
  cases hdomain : d.domain with
  | int low high step value =>
    rw [hdomain] at h
    exact h.elim
  | float low high step value =>
    rw [hdomain] at h
    simp only [Domain.defaultValue, Value.number?]
    exact if_pos h
  | choice options value =>
    rw [hdomain] at h
    exact h.elim

end Declaration

namespace Schema

variable {s : Schema α} {a r : Assignment α} {d : Declaration α}

/-- A parameter that an assignment leaves out, and whose default is a NaN. -/
structure Lapses (a : Assignment α) (d : Declaration α) : Prop where
  missing : a.get? d.name = none
  nan : d.domain.DefaultsToNaN

theorem admits_settled_iff (hcheck : d.check = .ok ())
    (h : settle a d = .ok (d.name, settled a d)) :
    d.domain.Admits (settled a d) ↔ ¬Lapses a d := by
  obtain ⟨-, ⟨hmissing, hvalue⟩ | ⟨v, hget, hnormal⟩⟩ := settle_cases h
  · rw [hvalue]
    refine (Domain.admits_defaultValue_iff (Declaration.check_eq_ok_iff.1 hcheck)).trans ?_
    exact ⟨fun hnumber hlapse => hnumber hlapse.nan, fun hkept hnan => hkept ⟨hmissing, hnan⟩⟩
  · refine iff_of_true (Declaration.admits_of_normalize hnormal) fun hlapse => ?_
    cases hlapse.missing.symm.trans hget

theorem names_of_resolve (hnames : s.names.Nodup) (h : s.resolve a = .ok r) :
    r.names.Perm s.names := by
  have hdistinct : ((s.declarations.map fun d => (d.name, settled a d)).map (·.1)).Nodup := by
    simpa [Function.comp_def, names] using hnames
  rw [(resolve_eq_ok h).2, NameMap.names]
  simpa [Function.comp_def, names] using (NameMap.entries_ofList_perm hdistinct).map (·.1)

theorem resolve_resolved (hnames : s.names.Nodup) (hchecks : ∀ d ∈ s.declarations, d.check = .ok ())
    (h : s.resolve a = .ok r) (hkept : ∀ d ∈ s.declarations, ¬Lapses a d) :
    s.resolve r = .ok r :=
  resolve_of_admits_settled hnames h fun d hd =>
    (admits_settled_iff (hchecks d hd) ((resolve_eq_ok h).1 d hd)).2 (hkept d hd)

/-- What was resolved is refused only for a parameter that was left at a NaN. -/
theorem lapses_of_resolve_eq_error (hnames : s.names.Nodup)
    (hchecks : ∀ d ∈ s.declarations, d.check = .ok ()) (h : s.resolve a = .ok r) {e : Rejection α}
    (hrefused : s.resolve r = .error e) :
    ∃ d ∈ s.declarations, Lapses a d ∧ e = .typeMismatch d.name .float d.defaultValue := by
  have hinvalid : s.validate r = .error e := by
    cases hvalid : s.validate r with
    | ok u => cases hrefused.symm.trans (resolve_of_validate hnames hvalid)
    | error e' =>
      rw [resolve, hvalid] at hrefused
      exact congrArg _ (Except.error.inj hrefused)
  obtain ⟨entry, hentry, hrejected⟩ := exists_of_forM_eq_error hinvalid
  obtain ⟨d, hd, hget, rfl⟩ := exists_of_mem_resolved hnames h hentry
  have hadmits := admits_settled_iff (hchecks d hd) ((resolve_eq_ok h).1 d hd)
  rw [← Declaration.normalize_self_iff] at hadmits
  simp only [hget] at hrejected
  by_cases hlapse : Lapses a d
  · have hdefault : settled a d = d.defaultValue := by
      simp only [settled, hlapse.missing]
    rw [hdefault, Declaration.normalize_default_of_nan hlapse.nan] at hrejected
    exact ⟨d, hd, hlapse, (Except.error.inj hrejected).symm⟩
  · rw [hadmits.2 hlapse] at hrejected
    cases hrejected

/-- What a schema of sound declarations with different names resolves to names exactly the declared
parameters. A value of it is accepted as it is unless its parameter was left out and defaults to a
NaN. With no such parameter it is resolved to itself; otherwise it is refused for one of them. -/
theorem resolved_again_unless_lapsed (hnames : s.names.Nodup)
    (hchecks : ∀ d ∈ s.declarations, d.check = .ok ()) (h : s.resolve a = .ok r) :
    r.names.Perm s.names ∧
    (∀ d ∈ s.declarations, ∃ v, r.get? d.name = some v ∧
      (d.normalize v = .ok v ↔ ¬Lapses a d)) ∧
    (s.resolve r = .ok r ↔ ∀ d ∈ s.declarations, ¬Lapses a d) ∧
    ∀ e, s.resolve r = .error e →
      ∃ d ∈ s.declarations, Lapses a d ∧ e = .typeMismatch d.name .float d.defaultValue := by
  have hvalues : ∀ d ∈ s.declarations, ∃ v, r.get? d.name = some v ∧
      (d.normalize v = .ok v ↔ ¬Lapses a d) := by
    intro d hd
    have hadmits := admits_settled_iff (hchecks d hd) ((resolve_eq_ok h).1 d hd)
    exact ⟨_, get?_of_resolve hnames h (get?_of_mem hnames hd),
      Declaration.normalize_self_iff.trans hadmits⟩
  refine ⟨names_of_resolve hnames h, hvalues, ⟨fun hagain d hd => ?_, resolve_resolved hnames
    hchecks h⟩, fun e => lapses_of_resolve_eq_error hnames hchecks h⟩
  obtain ⟨v, hget, haccepted⟩ := hvalues d hd
  have hsettled := get?_of_resolve hnames hagain (get?_of_mem hnames hd)
  obtain ⟨-, ⟨hnone, -⟩ | ⟨w, hw, hnormal⟩⟩ := settle_cases ((resolve_eq_ok hagain).1 d hd)
  · cases hnone.symm.trans hget
  · obtain rfl := Option.some.inj (hw.symm.trans hget)
    rw [Option.some.inj (hsettled.symm.trans hget)] at hnormal
    exact haccepted.1 hnormal

def unset : Schema Float :=
  ⟨[.int "count" 1 9 1 5, .float "level" 0 1 0.1 Scalar.nan]⟩

/-- With a level given, as an integer, the result is its own result. With none, it is refused. -/
theorem resolved_again_unless_lapsed_unset :
    (∃ r, unset.resolve (NameMap.ofList [("level", .int 1)]) = .ok r ∧ unset.resolve r = .ok r) ∧
    ∃ r, unset.resolve .empty = .ok r ∧
      unset.resolve r = .error (.typeMismatch "level" .float (.float Scalar.nan)) := by
  have hchecks : ∀ d ∈ unset.declarations, d.check = .ok () := by
    simp only [unset, List.forall_mem_cons]
    exact ⟨eq_ok_of_isSome (by decide +kernel), eq_ok_of_isSome (by decide +kernel), nofun⟩
  constructor
  · obtain ⟨r, h⟩ := exists_eq_ok (x := unset.resolve (NameMap.ofList [("level", .int 1)]))
      (by decide +kernel)
    obtain ⟨-, -, hagain, -⟩ := resolved_again_unless_lapsed (by decide) hchecks h
    refine ⟨r, h, hagain.2 ?_⟩
    simp only [unset, List.forall_mem_cons]
    exact ⟨fun hlapse => hlapse.nan, fun hlapse => absurd hlapse.missing (by decide), nofun⟩
  · obtain ⟨r, h⟩ := exists_eq_ok (x := unset.resolve .empty) (by decide +kernel)
    obtain ⟨-, -, hagain, hrefused⟩ := resolved_again_unless_lapsed (by decide) hchecks h
    refine ⟨r, h, ?_⟩
    cases hsecond : unset.resolve r with
    | ok r' =>
      obtain rfl := resolve_idem h hsecond
      have hlevel := hagain.1 hsecond _ (List.mem_cons_of_mem _ List.mem_cons_self)
      have hnan : Scalar.isNaN (Scalar.nan : Float) = true := by decide +kernel
      exact absurd ⟨rfl, hnan⟩ hlevel
    | error e =>
      obtain ⟨d, hd, hlapse, rfl⟩ := hrefused e hsecond
      simp only [unset, List.mem_cons, List.not_mem_nil, or_false] at hd
      obtain rfl | rfl := hd
      · exact hlapse.nan.elim
      · rfl

end Schema

end Backtest.Parameter
