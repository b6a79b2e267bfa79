import Backtest.Proofs.Document.Fields
import Backtest.Proofs.NameMap
import Backtest.Proofs.Time.Stored
import Backtest.Storage.Search

/-!
# Stored records read back

Each record is restored from its document, provided that its counts fit a machine word. One thing
may change: a profit factor that is not finite comes back as infinity.
-/

namespace Backtest

def Parameter.Value.isFinite {α : Type} [Scalar α] : Value α → Bool
  | .int _ => true
  | .float x => Scalar.isFinite x
  | .choice _ => true

namespace Storage

open Document

variable {n : ℕ} {t : Timestamp}

theorem restores_count (h : n < UInt64.size) : Restores (ofCount n) count? n := by
  intro c
  have hfit : (0 : ℤ) ≤ n ∧ (n : ℤ) < UInt64.size := ⟨by omega, by omega⟩
  rw [ofCount, written, count?, if_pos hfit]
  simp

theorem restores_time (t : Timestamp) : Restores (ofTime t) time? t := by
  intro c
  simp [ofTime, written, time?, text?, Time.stored?_exact]

theorem restores_finite (x : Float) :
    Restores (ofFinite x) (nullable? float?) (if x.isFinite then some x else none) := by
  intro c
  unfold ofFinite
  split <;> simp_all [written, nullable?, float?]

@[simp]
theorem allFinite_count (n : ℕ) : (ofCount n).AllFinite := allFinite_int n

@[simp]
theorem allFinite_time (t : Timestamp) : (ofTime t).AllFinite := allFinite_text _

@[simp]
theorem allFinite_finite (x : Float) : (ofFinite x).AllFinite := by
  unfold ofFinite
  split <;> simp_all

theorem restores_side (s : Side) : Restores (.text (sideName s)) (named? sideOfName?) s :=
  restores_named (by cases s <;> rfl)

theorem restores_texts (texts : List String) : Restores (ofTexts texts) texts? texts :=
  restores_list_self fun s _ => restores_text s

/-! ## Parameters -/

theorem restores_value (v : Parameter.Value Float) : Restores (ofValue v) value? v := by
  intro c
  cases v with
  | int v =>
    have hrange : Int64.minValue.toInt ≤ v.toInt ∧ v.toInt ≤ Int64.maxValue.toInt :=
      ⟨v.le_toInt, v.toInt_le⟩
    simp only [ofValue, written, value?, int64?]
    rw [if_pos hrange]
    simp
  | float x =>
    cases hx : x.isFinite <;> simp [ofValue, written, value?, int64?, float?, text?, hx]
  | choice s => simp [ofValue, written, value?, int64?, float?, text?]

theorem restores_assignment (a : Parameter.Assignment Float) :
    Restores (ofAssignment a) assignment? a := by
  have h := restores_map (f := id) fun e (_ : e ∈ a.entries) => restores_value e.2
  simp only [id_eq, Prod.mk.eta, List.map_id', NameMap.ofList_entries] at h
  exact h

theorem allFinite_assignment_iff {a : Parameter.Assignment Float} :
    (ofAssignment a).AllFinite ↔ ∀ e ∈ a.entries, e.2.isFinite = true := by
  rw [ofAssignment, allFinite_object, List.forall_mem_map]
  refine forall₂_congr fun e _ => ?_
  cases e.2 with
  | int n => exact iff_of_true (allFinite_int _) rfl
  | float x => exact allFinite_float x
  | choice s => exact iff_of_true (allFinite_text s) rfl

/-! ## Runs -/

theorem restores_point (p : EquityPoint Float) : Restores (ofPoint p) point? p := by
  refine restores_record rfl (by decide) fun c => ?_
  simp [↓required_of_ne, ↓required_self, ↓(restores_float _).bind, ↓(restores_time _).bind]

structure StorableTrade (t : Trade Float) : Prop where
  entryBar : t.entryBar < UInt64.size
  exitBar : t.exitBar < UInt64.size

theorem restores_trade {t : Trade Float} (h : StorableTrade t) : Restores (ofTrade t) trade? t := by
  refine restores_record rfl (by decide) fun c => ?_
  simp [↓required_of_ne, ↓required_self, ↓(restores_side _).bind, ↓(restores_float _).bind,
    ↓(restores_time _).bind, ↓(restores_count h.entryBar).bind,
    ↓(restores_count h.exitBar).bind, and_assoc]

/-- A profit factor that is not finite comes back as infinity. -/
def restoredMetrics (m : Metrics Float) : Metrics Float :=
  { m with profitFactor := if m.profitFactor.isFinite then m.profitFactor else Scalar.infinity }

theorem restores_metrics {m : Metrics Float} (h : m.tradeCount < UInt64.size) :
    Restores (ofMetrics m) metrics? (restoredMetrics m) := by
  refine restores_record rfl (by decide) fun c => ?_
  simp only [↓required_of_ne, ↓required_self, ↓(restores_finite _).bind, ↓(restores_float _).bind,
    ↓(restores_count h).bind, ne_eq, String.reduceEq, not_false_eq_true, restoredMetrics]
  cases m.profitFactor.isFinite <;> simp [and_assoc]

theorem restores_portfolio (p : Portfolio Float) : Restores (ofPortfolio p) portfolio? p := by
  refine restores_record rfl (by decide) fun c => ?_
  simp [↓required_of_ne, ↓required_self, ↓(restores_float _).bind, and_assoc]

theorem restores_costs (k : Costs Float) : Restores (ofCosts k) costs? k := by
  refine restores_record rfl (by decide) fun c => ?_
  simp [↓withDefault_of_ne, ↓withDefault_self, ↓(restores_float _).bind, ↓(restores_bool _).bind,
    and_assoc]

theorem restores_degenerate (flags : List Degenerate) :
    Restores (ofTexts (flags.map Degenerate.name)) (list? (named? degenerateOfName?)) flags := by
  rw [ofTexts, List.map_map]
  exact restores_list_self fun flag _ => restores_named (by cases flag <;> rfl)

theorem restores_curve (points : List (EquityPoint Float)) :
    Restores (ofCurve points) (list? point?) points :=
  restores_list_self fun p _ => restores_point p

theorem restores_trades {trades : List (Trade Float)} (h : ∀ t ∈ trades, StorableTrade t) :
    Restores (.list (trades.map ofTrade)) (list? trade?) trades :=
  restores_list_self fun t ht => restores_trade (h t ht)

theorem restores_version (h : n < UInt32.size) : Restores (ofCount n) version? n := by
  intro c
  have hcount := (restores_count (n := n) (h.trans (by decide)) n).2 ⟨allFinite_count n, rfl⟩
  simp [version?, hcount, h]

/-- Counts and indices that a stored run has room for. -/
structure StorableRun (e : Evaluation Float) : Prop where
  schemaVersion : e.schemaVersion < UInt32.size
  trades : ∀ t ∈ e.trades, StorableTrade t
  tradeCount : e.metrics.tradeCount < UInt64.size
  rejectedSignals : e.rejectedSignals < UInt64.size
  unfilledSignals : e.unfilledSignals < UInt64.size

def restoredRun (e : Evaluation Float) : Evaluation Float :=
  { e with metrics := restoredMetrics e.metrics }

theorem restores_run {e : Evaluation Float} (h : StorableRun e) :
    Restores (ofEvaluation e) evaluation? (restoredRun e) := by
  refine restores_record rfl (by decide) fun c => ?_
  simp [↓required_of_ne, ↓required_self, ↓withDefault_of_ne, ↓withDefault_self,
    ↓(restores_version h.schemaVersion).bind, ↓(restores_text _).bind,
    ↓(restores_assignment _).bind, ↓(restores_curve _).bind,
    ↓(restores_trades h.trades).bind, ↓(restores_metrics h.tradeCount).bind,
    ↓(restores_degenerate _).bind, ↓(restores_portfolio _).bind, ↓(restores_costs _).bind,
    ↓(restores_float _).bind, ↓(restores_count h.rejectedSignals).bind,
    ↓(restores_count h.unfilledSignals).bind, restoredRun, and_assoc, -allFinite_list]

/-! ## Searches -/

/-- Counts that a stored search has room for, and runs that are storable. -/
structure StorableSearch (o : SearchOutcome Float) : Prop where
  best : ∀ e ∈ o.best, StorableRun e
  rankedIndex : ∀ c ∈ o.ranked, c.index < UInt64.size
  tradeCount : ∀ c ∈ o.ranked, c.metrics.tradeCount < UInt64.size
  failedIndex : ∀ c ∈ o.failures, c.index < UInt64.size
  totalCandidates : o.totalCandidates < UInt64.size
  skippedInvalid : o.skippedInvalid < UInt64.size
  duplicatesDropped : o.duplicatesDropped < UInt64.size

def restoredRanked (c : RankedCandidate Float) : RankedCandidate Float :=
  { c with metrics := restoredMetrics c.metrics }

theorem restores_ranked {c : RankedCandidate Float} (hindex : c.index < UInt64.size)
    (hcount : c.metrics.tradeCount < UInt64.size) :
    Restores (ofRanked c) ranked? (restoredRanked c) := by
  refine restores_record rfl (by decide) fun c => ?_
  simp [↓required_of_ne, ↓required_self, ↓(restores_count hindex).bind,
    ↓(restores_assignment _).bind, ↓(restores_metrics hcount).bind, ↓(restores_float _).bind,
    restoredRanked, and_assoc]

theorem restores_failed {c : FailedCandidate Float} (hindex : c.index < UInt64.size) :
    Restores (ofFailed c) failed? c := by
  refine restores_record rfl (by decide) fun c => ?_
  simp [↓required_of_ne, ↓required_self, ↓(restores_count hindex).bind,
    ↓(restores_assignment _).bind, ↓(restores_text _).bind]

theorem restores_target (t : Target) : Restores (.text t.name) (named? Target.ofName?) t :=
  restores_named (by cases t <;> rfl)

theorem restores_best {best : Option (Evaluation Float)} (h : ∀ e ∈ best, StorableRun e) :
    Restores (ofOption ofEvaluation best) (nullable? evaluation?) (best.map restoredRun) := by
  intro c
  cases best with
  | none => simp [ofOption, written, nullable?]
  | some e =>
    have hnull : nullable? evaluation? (ofEvaluation e).written =
        (evaluation? (ofEvaluation e).written).map some := rfl
    rw [ofOption, hnull, Option.map_eq_some_iff]
    simp [restores_run (h e rfl) _, and_assoc]

def restoredSearch (o : SearchOutcome Float) : SearchOutcome Float :=
  { o with best := o.best.map restoredRun, ranked := o.ranked.map restoredRanked }

theorem restores_search {o : SearchOutcome Float} (h : StorableSearch o) :
    Restores (ofOutcome o) outcome? (restoredSearch o) := by
  have hranked := restores_list fun c hc => restores_ranked (h.rankedIndex c hc) (h.tradeCount c hc)
  have hfailures := restores_list_self fun c hc => restores_failed (h.failedIndex c hc)
  refine restores_record rfl (by decide) fun c => ?_
  simp [↓required_of_ne, ↓required_self, ↓optional_of_ne, ↓optional_self, ↓(restores_text _).bind,
    ↓(restores_target _).bind, ↓(restores_best h.best).bind, ↓hranked.bind, ↓hfailures.bind,
    ↓(restores_texts _).bind, ↓(restores_count h.totalCandidates).bind,
    ↓(restores_count h.skippedInvalid).bind, ↓(restores_count h.duplicatesDropped).bind,
    ↓(restores_bool _).bind, restoredSearch, and_assoc, -allFinite_list]

end Storage

end Backtest
