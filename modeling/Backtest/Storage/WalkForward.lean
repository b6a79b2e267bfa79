import Backtest.Storage.Search
import Backtest.WalkForward.Run

/-!
# Stored walk-forward results
-/

namespace Backtest.Storage

def ofWalkForwardConfig (c : WalkForwardConfig Float) : Document :=
  .object
    [("train_length", ofCount c.trainLength), ("test_length", ofCount c.testLength),
     ("mode", .text c.mode.name), ("oos_lead_in", .bool c.leadIn),
     ("overfit_threshold", .float c.overfitThreshold), ("ratio_cap", .float c.ratioCap),
     ("near_zero_sharpe", .float c.nearZero)]

/-- Walk-forward settings; what is left out is standard. -/
def walkForwardConfig? (d : Document) : Option (WalkForwardConfig Float) := do
  let f ← d.fields? ["train_length", "test_length", "mode", "oos_lead_in", "overfit_threshold",
    "ratio_cap", "near_zero_sharpe"]
  let c : WalkForwardConfig Float := .standard
  return {
    trainLength := ← f.withDefault "train_length" Document.count? c.trainLength
    testLength := ← f.withDefault "test_length" Document.count? c.testLength
    mode := ← f.withDefault "mode" (Document.named? WindowMode.ofName?) c.mode
    leadIn := ← f.withDefault "oos_lead_in" Document.bool? c.leadIn
    overfitThreshold := ← f.withDefault "overfit_threshold" Document.float? c.overfitThreshold
    ratioCap := ← f.withDefault "ratio_cap" Document.float? c.ratioCap
    nearZero := ← f.withDefault "near_zero_sharpe" Document.float? c.nearZero }

def ofRange (r : BarRange) : Document :=
  .object
    [("start", ofCount r.start), ("end", ofCount r.stop), ("start_time", ofTime r.startTime),
     ("end_time", ofTime r.stopTime)]

def range? (d : Document) : Option BarRange := do
  let f ← d.fields? ["start", "end", "start_time", "end_time"]
  return {
    start := ← f.required "start" Document.count?
    stop := ← f.required "end" Document.count?
    startTime := ← f.required "start_time" Document.time?
    stopTime := ← f.required "end_time" Document.time? }

def flagOfName? (name : String) : Option DegradationFlag :=
  DegradationFlag.all.find? fun flag => flag.name == name

def ofWindow (w : WindowResult Float) : Document :=
  .object
    [("window_index", ofCount w.index), ("in_sample_range", ofRange w.inSample),
     ("out_sample_range", ofRange w.outOfSample), ("best_params", ofAssignment w.bestParameters),
     ("in_sample_metrics", ofMetrics w.inSampleMetrics),
     ("out_sample_metrics", ofMetrics w.outOfSampleMetrics),
     ("degradation_ratio", ofOption .float w.degradation),
     ("degradation_flag", .text w.flag.name),
     ("candidates_evaluated", ofCount w.candidatesEvaluated),
     ("candidate_failures", ofCount w.candidateFailures)]

def window? (d : Document) : Option (WindowResult Float) := do
  let f ← d.fields? ["window_index", "in_sample_range", "out_sample_range", "best_params",
    "in_sample_metrics", "out_sample_metrics", "degradation_ratio", "degradation_flag",
    "candidates_evaluated", "candidate_failures"]
  return {
    index := ← f.required "window_index" Document.count?
    inSample := ← f.required "in_sample_range" range?
    outOfSample := ← f.required "out_sample_range" range?
    bestParameters := ← f.required "best_params" assignment?
    inSampleMetrics := ← f.required "in_sample_metrics" metrics?
    outOfSampleMetrics := ← f.required "out_sample_metrics" metrics?
    degradation := ← f.optional "degradation_ratio" Document.float?
    flag := ← f.required "degradation_flag" (Document.named? flagOfName?)
    candidatesEvaluated := ← f.required "candidates_evaluated" Document.count?
    candidateFailures := ← f.required "candidate_failures" Document.count? }

def ofWindowFailure (w : WindowFailure) : Document :=
  .object [("window_index", ofCount w.index), ("error", .text w.error)]

def windowFailure? (d : Document) : Option WindowFailure := do
  let f ← d.fields? ["window_index", "error"]
  return ⟨← f.required "window_index" Document.count?, ← f.required "error" Document.text?⟩

def ofSummary (s : WalkForwardSummary Float) : Document :=
  .object
    [("strategy", .text s.strategy), ("target", .text s.target.name),
     ("config", ofWalkForwardConfig s.config), ("windows", .list (s.windows.map ofWindow)),
     ("failures", .list (s.failures.map ofWindowFailure)),
     ("planned_windows", ofCount s.plannedWindows), ("discarded_bars", ofCount s.discardedBars),
     ("mean_is_sharpe", .float s.meanInSample), ("mean_oos_sharpe", .float s.meanOutOfSample),
     ("std_oos_sharpe", .float s.deviationOutOfSample),
     ("mean_degradation", ofOption .float s.meanDegradation),
     ("compounded_oos_return", .float s.compoundedReturn),
     ("overfit_suspected", .bool s.overfitSuspected), ("cancelled", .bool s.cancelled)]

def summary? (d : Document) : Option (WalkForwardSummary Float) := do
  let f ← d.fields? ["strategy", "target", "config", "windows", "failures", "planned_windows",
    "discarded_bars", "mean_is_sharpe", "mean_oos_sharpe", "std_oos_sharpe", "mean_degradation",
    "compounded_oos_return", "overfit_suspected", "cancelled"]
  return {
    strategy := ← f.required "strategy" Document.text?
    target := ← f.required "target" (Document.named? Target.ofName?)
    config := ← f.required "config" walkForwardConfig?
    windows := ← f.required "windows" (Document.list? window?)
    failures := ← f.required "failures" (Document.list? windowFailure?)
    plannedWindows := ← f.required "planned_windows" Document.count?
    discardedBars := ← f.required "discarded_bars" Document.count?
    meanInSample := ← f.required "mean_is_sharpe" Document.float?
    meanOutOfSample := ← f.required "mean_oos_sharpe" Document.float?
    deviationOutOfSample := ← f.required "std_oos_sharpe" Document.float?
    meanDegradation := ← f.optional "mean_degradation" Document.float?
    compoundedReturn := ← f.required "compounded_oos_return" Document.float?
    overfitSuspected := ← f.required "overfit_suspected" Document.bool?
    cancelled := ← f.required "cancelled" Document.bool? }

end Backtest.Storage
