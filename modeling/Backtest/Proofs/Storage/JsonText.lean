import Backtest.Proofs.Document.JsonText
import Backtest.Proofs.Storage.Restoration

/-!
# Stored records as JSON text

The document of a record nests a few levels only, and its counts fit a machine word, so its text
reads back as what is written of it. Of an assignment even the integers fit by their type, so
nothing but its numbers decides whether it comes back.
-/

namespace Backtest.Storage

open Document Document.Json

variable {n k : ℕ}

theorem readable_count (h : n < UInt64.size) : Readable k (ofCount n) := by
  refine .int ⟨?_, Int.ofNat_lt.2 h⟩
  exact (show Int64.minValue.toInt ≤ 0 by decide).trans (Int.natCast_nonneg n)

@[simp]
theorem readable_time (t : Timestamp) : Readable k (ofTime t) := .text _

@[simp]
theorem readable_finite (x : Float) : Readable k (ofFinite x) := by
  unfold ofFinite
  split
  · exact .float x
  · exact .null

@[simp]
theorem readable_texts (texts : List String) : Readable (k + 1) (ofTexts texts) := by
  simp [ofTexts]

@[simp]
theorem readable_assignment (a : Parameter.Assignment Float) :
    Readable (k + 1) (ofAssignment a) := by
  refine .object (List.forall_mem_map.2 fun e _ => ?_)
  cases e.2 with
  | int v =>
    refine .int ⟨v.le_toInt, ?_⟩
    exact v.toInt_lt.trans (by decide)
  | float x => exact .float x
  | choice s => exact .text s

theorem readable_metrics {m : Metrics Float} (h : m.tradeCount < UInt64.size) :
    Readable (k + 1) (ofMetrics m) := by
  simp [ofMetrics, readable_count h]

theorem readable_trade {t : Trade Float} (h : StorableTrade t) : Readable (k + 1) (ofTrade t) := by
  simp [ofTrade, readable_count h.entryBar, readable_count h.exitBar]

@[simp]
theorem readable_curve (points : List (EquityPoint Float)) : Readable (k + 2) (ofCurve points) := by
  simp [ofCurve, ofPoint]

@[simp]
theorem readable_portfolio (p : Portfolio Float) : Readable (k + 1) (ofPortfolio p) := by
  simp [ofPortfolio]

@[simp]
theorem readable_costs (c : Costs Float) : Readable (k + 1) (ofCosts c) := by
  simp [ofCosts]

theorem readable_run {e : Evaluation Float} (h : StorableRun e) :
    Readable (k + 3) (ofEvaluation e) := by
  have htrades : ∀ t ∈ e.trades, Readable (k + 1) (ofTrade t) := fun t ht =>
    readable_trade (h.trades t ht)
  simpa [ofEvaluation, readable_count (h.schemaVersion.trans (by decide)),
    readable_metrics h.tradeCount, readable_count h.rejectedSignals,
    readable_count h.unfilledSignals] using htrades

theorem readable_ranked {c : RankedCandidate Float} (hindex : c.index < UInt64.size)
    (hcount : c.metrics.tradeCount < UInt64.size) : Readable (k + 2) (ofRanked c) := by
  simp [ofRanked, readable_count hindex, readable_metrics hcount]

theorem readable_failed {c : FailedCandidate Float} (hindex : c.index < UInt64.size) :
    Readable (k + 2) (ofFailed c) := by
  simp [ofFailed, readable_count hindex]

theorem readable_search {o : SearchOutcome Float} (h : StorableSearch o) :
    Readable (k + 4) (ofOutcome o) := by
  have hbest : Readable (k + 3) (ofOption ofEvaluation o.best) := by
    cases hb : o.best with
    | none => exact .null
    | some e => exact readable_run (h.best e hb)
  have hranked : ∀ c ∈ o.ranked, Readable (k + 2) (ofRanked c) := fun c hc =>
    readable_ranked (h.rankedIndex c hc) (h.tradeCount c hc)
  have hfailures : ∀ c ∈ o.failures, Readable (k + 2) (ofFailed c) := fun c hc =>
    readable_failed (h.failedIndex c hc)
  simpa [ofOutcome, hbest, readable_count h.totalCandidates, readable_count h.skippedInvalid,
    readable_count h.duplicatesDropped] using And.intro hranked hfailures

/-! ## Assignments -/

theorem assignment?_of_read? {a b : Parameter.Assignment Float} {text : String}
    (h : read? text = some (ofAssignment a).written) :
    (read? text).bind assignment? = some b ↔
      (∀ e ∈ a.entries, e.2.isFinite = true) ∧ a = b := by
  rw [h, Option.bind_some, restores_assignment a b, allFinite_assignment_iff]

/-- An assignment with finite numbers reads back from its text, on one line or over several lines,
with its names, values and kinds of value, however alike their texts are. From the text of one with
any other number nothing reads back. -/
theorem assignment_text_restores (a b : Parameter.Assignment Float) :
    ((read? (compact (ofAssignment a))).bind assignment? = some b ↔
        (∀ e ∈ a.entries, e.2.isFinite = true) ∧ a = b) ∧
      ((read? (pretty (ofAssignment a))).bind assignment? = some b ↔
        (∀ e ∈ a.entries, e.2.isFinite = true) ∧ a = b) := by
  have hdepth : Readable maxDepth (ofAssignment a) := readable_assignment a
  constructor
  · exact assignment?_of_read? (read?_compact hdepth)
  · exact assignment?_of_read? (read?_pretty hdepth)

def lookalikes : Parameter.Assignment Float :=
  .ofList [("integer", .int 2), ("number", .float 2), ("choice", .choice "2"),
    ("negative \"zero\"", .float (-0.0))]

example : compact (ofAssignment lookalikes) =
    "\x7b\"choice\":\"2\",\"integer\":2,\"negative \\\"zero\\\"\":-0.0,\"number\":2.0\x7d" := by
  decide +kernel

end Backtest.Storage
