/-!
# Results of computations that can be refused

When a chain of checks succeeds, each of its links has.
-/

namespace Backtest

variable {ε δ β γ : Type}

@[simp] theorem bind_eq_ok_iff {x : Except ε β} {f : β → Except ε γ} {c : γ} :
    (x >>= f) = .ok c ↔ ∃ b, x = .ok b ∧ f b = .ok c := by
  cases x with
  | error e => simp [bind, Except.bind]
  | ok b => simp [bind, Except.bind]

theorem mapError_ok (b : β) (f : ε → δ) : (Except.ok b).mapError f = .ok b := rfl

theorem mapError_error (e : ε) (f : ε → δ) : (Except.error e : Except ε β).mapError f = .error (f e) :=
  rfl

@[simp] theorem mapError_eq_ok_iff {x : Except ε β} {f : ε → δ} {b : β} :
    x.mapError f = .ok b ↔ x = .ok b := by
  cases x with
  | error e => exact ⟨nofun, nofun⟩
  | ok c => exact ⟨fun h => congrArg _ (Except.ok.inj h), fun h => congrArg _ (Except.ok.inj h)⟩

@[simp] theorem map_eq_ok_iff {x : Except ε β} {f : β → γ} {c : γ} :
    f <$> x = .ok c ↔ ∃ b, x = .ok b ∧ f b = c := by
  cases x with
  | error e => simp [Functor.map, Except.map]
  | ok b => simp [Functor.map, Except.map]

@[simp] theorem pure_eq_ok_iff {b c : β} : (pure b : Except ε β) = .ok c ↔ b = c := by
  simp [pure, Except.pure]

@[simp] theorem exists_unit_eq_ok_iff {x : Except ε Unit} : (∃ u, x = .ok u) ↔ x = .ok () :=
  ⟨fun ⟨(), h⟩ => h, fun h => ⟨(), h⟩⟩

@[simp] theorem throw_eq_error_iff {e e' : ε} : (throw e : Except ε β) = .error e' ↔ e = e' :=
  ⟨Except.error.inj, congrArg _⟩

@[simp] theorem pure_ne_error {b : β} {e : ε} : (pure b : Except ε β) ≠ .error e := nofun

@[simp] theorem map_eq_error_iff {x : Except ε β} {f : β → γ} {e : ε} :
    f <$> x = .error e ↔ x = .error e := by
  cases x with
  | error e => simp [Functor.map, Except.map]
  | ok b => simp [Functor.map, Except.map]

theorem bind_eq_error_iff {x : Except ε β} {f : β → Except ε γ} {e : ε} :
    (x >>= f) = .error e ↔ x = .error e ∨ ∃ b, x = .ok b ∧ f b = .error e := by
  cases x with
  | error e => simp [bind, Except.bind]
  | ok b => simp [bind, Except.bind]

theorem mapError_eq_error_iff {x : Except ε β} {f : ε → δ} {d : δ} :
    x.mapError f = .error d ↔ ∃ e, x = .error e ∧ f e = d := by
  cases x with
  | error e =>
    constructor
    · exact fun h => ⟨e, rfl, Except.error.inj h⟩
    · rintro ⟨_, h, rfl⟩
      cases h
      rfl
  | ok b => exact ⟨nofun, fun ⟨_, h, _⟩ => nomatch h⟩

/-- When all of a list succeeds, with results that a function gives, they are that function's. -/
theorem mapM_eq_ok {f : β → Except ε γ} {g : β → γ} (hg : ∀ b c, f b = .ok c → c = g b)
    {bs : List β} {cs : List γ} (h : bs.mapM f = .ok cs) :
    (∀ b ∈ bs, f b = .ok (g b)) ∧ cs = bs.map g := by
  induction bs generalizing cs with
  | nil =>
    cases h
    simp
  | cons b bs ih =>
    simp only [List.mapM_cons, bind_eq_ok_iff, pure_eq_ok_iff] at h
    obtain ⟨c, hc, rest, hrest, rfl⟩ := h
    obtain ⟨hall, rfl⟩ := ih hrest
    obtain rfl := hg b c hc
    exact ⟨List.forall_mem_cons.2 ⟨hc, hall⟩, rfl⟩

/-- When a function gives the results of all of a list, it gives the list of them. -/
theorem mapM_of_forall {f : β → Except ε γ} {g : β → γ} {bs : List β}
    (h : ∀ b ∈ bs, f b = .ok (g b)) : bs.mapM f = .ok (bs.map g) := by
  induction bs with
  | nil => rfl
  | cons b bs ih =>
    obtain ⟨hb, hbs⟩ := List.forall_mem_cons.1 h
    simp only [List.mapM_cons, bind_eq_ok_iff, pure_eq_ok_iff]
    exact ⟨g b, hb, bs.map g, ih hbs, rfl⟩

theorem forM_eq_ok_iff {f : β → Except ε Unit} {bs : List β} :
    bs.forM f = .ok () ↔ ∀ b ∈ bs, f b = .ok () := by
  induction bs with
  | nil => simp [List.forM]
  | cons b bs ih =>
    rw [List.forM_eq_forM] at ih ⊢
    simp [List.forM_cons, ih]

/-- A list is refused for one of its elements. -/
theorem exists_of_forM_eq_error {f : β → Except ε Unit} {bs : List β} {e : ε}
    (h : bs.forM f = .error e) : ∃ b ∈ bs, f b = .error e := by
  induction bs with
  | nil => cases h
  | cons b bs ih =>
    rw [List.forM_eq_forM] at ih h
    rw [List.forM_cons, bind_eq_error_iff] at h
    obtain hb | ⟨_, -, hrest⟩ := h
    · exact ⟨b, List.mem_cons_self, hb⟩
    · obtain ⟨c, hc, he⟩ := ih hrest
      exact ⟨c, List.mem_cons_of_mem b hc, he⟩

/-- What each step of a chain keeps, the chain keeps. -/
theorem foldlM_invariant {P : β → Prop} {f : β → γ → Except ε β}
    (hstep : ∀ b c b', P b → f b c = .ok b' → P b') {cs : List γ} {b b' : β} (hb : P b)
    (h : cs.foldlM f b = .ok b') : P b' := by
  induction cs generalizing b with
  | nil =>
    cases h
    exact hb
  | cons c cs ih =>
    rw [List.foldlM_cons, bind_eq_ok_iff] at h
    obtain ⟨mid, hmid, hrest⟩ := h
    exact ih (hstep b c mid hb hmid) hrest

theorem toOption_eq_some_iff {x : Except ε β} {b : β} : x.toOption = some b ↔ x = .ok b := by
  cases x with
  | error e => simp [Except.toOption]
  | ok b => simp [Except.toOption]

theorem exists_eq_ok {x : Except ε β} (h : x.toOption.isSome) : ∃ b, x = .ok b := by
  obtain ⟨b, hb⟩ := Option.isSome_iff_exists.1 h
  exact ⟨b, toOption_eq_some_iff.1 hb⟩

theorem eq_ok_of_isSome {x : Except ε Unit} (h : x.toOption.isSome) : x = .ok () :=
  exists_unit_eq_ok_iff.1 (exists_eq_ok h)

end Backtest
