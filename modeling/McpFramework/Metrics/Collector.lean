import McpFramework.Metrics.Histogram
import McpFramework.Lib.HashMap

/-!
# Metrics — Collector

The collector of tool call statistics (`metrics/collector.rs`): counters and a
latency histogram for each tool, counters for each session, and in every session
a count for each tool.

Three maps grow with what callers send. The tools and the sessions are capped;
the counts of a session are not.
-/

namespace McpFramework.Metrics

open Lib

/-! ## Configuration and records -/

/-- `metrics/config.rs`. -/
structure MetricsConfig where
  latencyBucketsMs : List (Option ℚ)
  trackSessions : Bool
  /-- Maximum number of distinct sessions to retain. -/
  maxSessions : Nat
  /-- Maximum number of distinct tools to retain. -/
  maxTools : Nat

def DEFAULT_METRICS_MAX_SESSIONS : Nat := 10000
def DEFAULT_METRICS_MAX_TOOLS : Nat := 1000

def MetricsConfig.default : MetricsConfig :=
  { latencyBucketsMs := DEFAULT_METRICS_LATENCY_BUCKETS_MS.map some, trackSessions := true
    maxSessions := DEFAULT_METRICS_MAX_SESSIONS, maxTools := DEFAULT_METRICS_MAX_TOOLS }

/-- How a call ended. -/
inductive ToolCallOutcome where
  | success (isError : Bool)
  | mcpError
deriving DecidableEq, Repr

structure ToolCallRecord where
  toolName : String
  sessionId : String
  duration : Nat
  outcome : ToolCallOutcome
deriving DecidableEq, Repr

/-- `as_secs_f64() * 1000.0`. -/
def ToolCallRecord.ms (record : ToolCallRecord) : ℚ := (record.duration : ℚ) / 1000000000 * 1000

/-- The three buckets an outcome is counted in. -/
inductive Outcome where
  | success
  | toolError
  | mcpError
deriving DecidableEq, Repr

def Outcome.classify : ToolCallOutcome → Outcome
  | .success false => .success
  | .success true => .toolError
  | .mcpError => .mcpError

/-! ## Counters -/

structure ToolStats where
  success : Nat
  toolError : Nat
  mcpError : Nat
  latency : Histogram

namespace ToolStats

def new (bounds : Bounds) : ToolStats :=
  { success := 0, toolError := 0, mcpError := 0, latency := Histogram.new bounds }

def calls (s : ToolStats) : Nat := s.success + s.toolError + s.mcpError

def errors (s : ToolStats) : Nat := s.toolError + s.mcpError

def countOutcome (s : ToolStats) : Outcome → ToolStats
  | .success => { s with success := s.success + 1 }
  | .toolError => { s with toolError := s.toolError + 1 }
  | .mcpError => { s with mcpError := s.mcpError + 1 }

def record (s : ToolStats) (outcome : Outcome) (ms : ℚ) : ToolStats :=
  { s.countOutcome outcome with latency := s.latency.observe ms }

end ToolStats

structure SessionStats where
  success : Nat
  errors : Nat
  perTool : HashMap String Nat

namespace SessionStats

def default : SessionStats := { success := 0, errors := 0, perTool := HashMap.empty }

def calls (s : SessionStats) : Nat := s.success + s.errors

def countOutcome (s : SessionStats) : Outcome → SessionStats
  | .success => { s with success := s.success + 1 }
  | .toolError | .mcpError => { s with errors := s.errors + 1 }

def countTool (perTool : HashMap String Nat) (tool : String) : HashMap String Nat :=
  match perTool.get? tool with
  | some count => perTool.insert tool (count + 1)
  | none => perTool.insert tool 1

def record (s : SessionStats) (outcome : Outcome) (tool : String) : SessionStats :=
  { s.countOutcome outcome with perTool := countTool s.perTool tool }

end SessionStats

/-! ## The collector -/

/-- The state under the mutex. -/
structure Inner where
  tools : HashMap String ToolStats
  sessions : HashMap String SessionStats

structure MetricsCollector where
  config : MetricsConfig
  bounds : Bounds
  inner : Inner

namespace MetricsCollector

def new (config : MetricsConfig) : MetricsCollector :=
  { config := config, bounds := sortedBounds config.latencyBucketsMs
    inner := { tools := HashMap.empty, sessions := HashMap.empty } }

def recordTool (c : MetricsCollector) (record : ToolCallRecord) : HashMap String ToolStats :=
  c.inner.tools.updateWithin c.config.maxTools record.toolName (ToolStats.new c.bounds)
    fun stats => stats.record (Outcome.classify record.outcome) record.ms

def recordSession (c : MetricsCollector) (record : ToolCallRecord) : HashMap String SessionStats :=
  if c.config.trackSessions then
    c.inner.sessions.updateWithin c.config.maxSessions record.sessionId SessionStats.default
      fun stats => stats.record (Outcome.classify record.outcome) record.toolName
  else c.inner.sessions

def record (c : MetricsCollector) (record : ToolCallRecord) : MetricsCollector :=
  { c with inner := { tools := c.recordTool record, sessions := c.recordSession record } }

/-- A collector after a sequence of records. -/
def recording (config : MetricsConfig) (records : List ToolCallRecord) : MetricsCollector :=
  records.foldl record (new config)

/-! ## Snapshots -/

structure ToolMetrics where
  tool : String
  calls : Nat
  success : Nat
  toolError : Nat
  mcpError : Nat
  successRate : ℚ
  errorRate : ℚ
  avgMs : ℚ
  p50Ms : ℚ
  p95Ms : ℚ
  p99Ms : ℚ

def ToolMetrics.of (tool : String) (s : ToolStats) : ToolMetrics :=
  let denom : ℚ := (max s.calls 1 : Nat)
  { tool := tool, calls := s.calls, success := s.success, toolError := s.toolError
    mcpError := s.mcpError, successRate := s.success / denom, errorRate := s.errors / denom
    avgMs := s.latency.meanMs, p50Ms := s.latency.quantile (50 / 100)
    p95Ms := s.latency.quantile (95 / 100), p99Ms := s.latency.quantile (99 / 100) }

structure SessionMetrics where
  sessionId : String
  calls : Nat
  errors : Nat
  errorRate : ℚ
  tools : HashMap String Nat

def SessionMetrics.of (id : String) (s : SessionStats) : SessionMetrics :=
  let denom : ℚ := (max s.calls 1 : Nat)
  { sessionId := id, calls := s.calls, errors := s.errors, errorRate := s.errors / denom
    tools := s.perTool }

structure MetricsSnapshot where
  totalCalls : Nat
  tools : List ToolMetrics
  sessions : List SessionMetrics

/-- More calls first, then by name. -/
def byCalls {α : Type} (calls : α → Nat) (name : α → String) (a b : α) : Bool :=
  decide (calls b < calls a ∨ calls a = calls b ∧ name a ≤ name b)

def snapshot (c : MetricsCollector) : MetricsSnapshot :=
  let tools := (c.inner.tools.entries.map fun e => ToolMetrics.of e.1 e.2).mergeSort
    (byCalls ToolMetrics.calls ToolMetrics.tool)
  let sessions := (c.inner.sessions.entries.map fun e => SessionMetrics.of e.1 e.2).mergeSort
    (byCalls SessionMetrics.calls SessionMetrics.sessionId)
  { totalCalls := (tools.map ToolMetrics.calls).sum, tools := tools, sessions := sessions }

end MetricsCollector

/-! ## What one record adds -/

theorem ToolStats.calls_record (s : ToolStats) (outcome : Outcome) (ms : ℚ) :
    (s.record outcome ms).calls = s.calls + 1 := by
  cases outcome <;> simp only [ToolStats.record, ToolStats.countOutcome, ToolStats.calls] <;> omega

theorem ToolStats.count_latency_record (s : ToolStats) (outcome : Outcome) (ms : ℚ) :
    (s.record outcome ms).latency.count = s.latency.count + 1 := rfl

theorem SessionStats.calls_record (s : SessionStats) (outcome : Outcome) (tool : String) :
    (s.record outcome tool).calls = s.calls + 1 := by
  cases outcome <;>
    simp only [SessionStats.record, SessionStats.countOutcome, SessionStats.calls] <;> omega

theorem SessionStats.countTool_eq (perTool : HashMap String Nat) (tool : String) :
    SessionStats.countTool perTool tool =
      perTool.insert tool ((perTool.get? tool).getD 0 + 1) := by
  rw [SessionStats.countTool]
  cases perTool.get? tool <;> rfl

theorem SessionStats.sum_countTool (perTool : HashMap String Nat) (tool : String) :
    (SessionStats.countTool perTool tool).values.sum = perTool.values.sum + 1 := by
  have hsum := HashMap.sum_values_insert id perTool tool ((perTool.get? tool).getD 0 + 1)
  rw [← SessionStats.countTool_eq, List.map_id, List.map_id, Option.map_id_fun, id] at hsum
  simp only [id] at hsum
  omega

/-- A tool that the session has not called before is one more name. -/
theorem SessionStats.len_countTool (perTool : HashMap String Nat) (tool : String) :
    (SessionStats.countTool perTool tool).len =
      if perTool.containsKey tool then perTool.len else perTool.len + 1 := by
  rw [SessionStats.countTool_eq, HashMap.len_insert]

namespace MetricsCollector

variable {config : MetricsConfig} {c : MetricsCollector} {r : ToolCallRecord}
  {records : List ToolCallRecord}

/-! ## The invariant of every run -/

/-- The two capped maps, and counters that add up. -/
structure Balanced (c : MetricsCollector) : Prop where
  tools : c.inner.tools.len ≤ c.config.maxTools
  sessions : c.inner.sessions.len ≤ c.config.maxSessions
  outcomes : ∀ name s, c.inner.tools.get? name = some s →
    s.success + s.toolError + s.mcpError = s.latency.count
  calls : ∀ id s, c.inner.sessions.get? id = some s → s.calls = s.perTool.values.sum

theorem balanced_new (config : MetricsConfig) : Balanced (new config) :=
  { tools := Nat.zero_le _
    sessions := Nat.zero_le _
    outcomes := fun name s hs => by
      rw [new, HashMap.get?_empty] at hs
      cases hs
    calls := fun id s hs => by
      rw [new, HashMap.get?_empty] at hs
      cases hs }

theorem Balanced.record (h : Balanced c) (record : ToolCallRecord) :
    Balanced (c.record record) := by
  refine ⟨HashMap.len_updateWithin_le h.tools _ _ _, ?_, ?_, ?_⟩
  · show (c.recordSession record).len ≤ c.config.maxSessions
    rw [recordSession]
    split
    · exact HashMap.len_updateWithin_le h.sessions _ _ _
    · exact h.sessions
  · refine HashMap.forall_updateWithin _ h.outcomes ?_
    show ToolStats.calls _ = _
    rw [ToolStats.calls_record, ToolStats.count_latency_record, Nat.succ_inj]
    cases hs : c.inner.tools.get? record.toolName with
    | none => rfl
    | some s => exact h.outcomes _ s hs
  · show ∀ id s, (c.recordSession record).get? id = some s → _
    rw [recordSession]
    split
    · refine HashMap.forall_updateWithin _ h.calls ?_
      show _ = (SessionStats.countTool _ _).values.sum
      rw [SessionStats.calls_record, SessionStats.sum_countTool, Nat.succ_inj]
      cases hs : c.inner.sessions.get? record.sessionId with
      | none => rfl
      | some s => exact h.calls _ s hs
    · exact h.calls

/-! ## The names of a session -/

/-- The counts of every session stay within the cap on tools. -/
def SessionsFit (c : MetricsCollector) : Prop :=
  ∀ id s, c.inner.sessions.get? id = some s → s.perTool.len ≤ c.config.maxTools

/-- The record is counted for its session: sessions are tracked, and this one is
already or is below the cap. -/
def Tracked (c : MetricsCollector) (record : ToolCallRecord) : Prop :=
  c.config.trackSessions = true ∧
    (c.inner.sessions.containsKey record.sessionId = true ∨
      c.inner.sessions.len < c.config.maxSessions)

/-- What the session of a record has counted so far. -/
def sessionTools (c : MetricsCollector) (record : ToolCallRecord) : HashMap String Nat :=
  ((c.inner.sessions.get? record.sessionId).getD SessionStats.default).perTool

/-- A record that counts for its session names a tool that the session counts
already, or finds room for one more name. -/
def Fits (c : MetricsCollector) (record : ToolCallRecord) : Prop :=
  Tracked c record → (c.sessionTools record).containsKey record.toolName = true ∨
    (c.sessionTools record).len < c.config.maxTools

theorem sessions_record_of_not_tracked (h : ¬ Tracked c r) :
    (c.record r).inner.sessions = c.inner.sessions := by
  show c.recordSession r = _
  rw [recordSession]
  split
  · rename_i htrack
    rw [HashMap.updateWithin_eq, if_neg fun hroom => h ⟨htrack, hroom⟩]
  · rfl

theorem sessions_record_of_tracked (h : Tracked c r) :
    (c.record r).inner.sessions = c.inner.sessions.insert r.sessionId
      (((c.inner.sessions.get? r.sessionId).getD SessionStats.default).record
        (Outcome.classify r.outcome) r.toolName) := by
  show c.recordSession r = _
  rw [recordSession, if_pos h.1, HashMap.updateWithin_eq, if_pos h.2]

/-- One record keeps the counts of the sessions within the cap exactly when it
fits. -/
theorem sessionsFit_record_iff (h : SessionsFit c) (r : ToolCallRecord) :
    SessionsFit (c.record r) ↔ Fits c r := by
  by_cases htracked : Tracked c r
  · have hbefore : (c.sessionTools r).len ≤ c.config.maxTools := by
      rw [sessionTools]
      cases hget : c.inner.sessions.get? r.sessionId with
      | none => exact Nat.zero_le _
      | some s => exact h _ s hget
    have hafter : (SessionStats.countTool (c.sessionTools r) r.toolName).len ≤ c.config.maxTools ↔
        (c.sessionTools r).containsKey r.toolName = true ∨
          (c.sessionTools r).len < c.config.maxTools := by
      rw [SessionStats.len_countTool]
      split
      · exact ⟨fun _ => .inl ‹_›, fun _ => hbefore⟩
      · exact ⟨.inr, fun hroom => hroom.resolve_left ‹_›⟩
    have hinsert := sessions_record_of_tracked htracked
    constructor
    · intro hfit _
      have hsession := hfit r.sessionId
      rw [hinsert, HashMap.get?_insert_self] at hsession
      exact hafter.mp (hsession _ rfl)
    · intro hfits id s hs
      rw [hinsert, HashMap.get?_insert] at hs
      split at hs
      · cases hs
        exact hafter.mpr (hfits htracked)
      · exact h id s hs
  · refine ⟨fun _ => fun htracked' => absurd htracked' htracked, fun _ id s hs => ?_⟩
    rw [sessions_record_of_not_tracked htracked] at hs
    exact h id s hs

/-! ## The total -/

/-- The record is about a tool that the cap drops. -/
def ToolDropped (c : MetricsCollector) (record : ToolCallRecord) : Prop :=
  c.inner.tools.containsKey record.toolName = false ∧ c.config.maxTools ≤ c.inner.tools.len

theorem totalCalls_eq (c : MetricsCollector) :
    c.snapshot.totalCalls = (c.inner.tools.values.map ToolStats.calls).sum := by
  show List.sum (List.map _ (List.mergeSort _ _)) = _
  rw [((List.mergeSort_perm _ _).map ToolMetrics.calls).sum_eq, List.map_map, HashMap.values,
    List.map_map]
  rfl

theorem totalCalls_record (h : ¬ ToolDropped c r) :
    (c.record r).snapshot.totalCalls = c.snapshot.totalCalls + 1 := by
  have hroom : c.inner.tools.containsKey r.toolName = true ∨
      c.inner.tools.len < c.config.maxTools := by
    by_cases hknown : c.inner.tools.containsKey r.toolName = true
    · exact .inl hknown
    · exact .inr (Nat.lt_of_not_le fun hfull => h ⟨Bool.not_eq_true _ ▸ hknown, hfull⟩)
  rw [totalCalls_eq, totalCalls_eq]
  show ((c.recordTool r).values.map ToolStats.calls).sum = _
  rw [recordTool, HashMap.updateWithin_eq, if_pos hroom]
  have hsum := HashMap.sum_values_insert ToolStats.calls c.inner.tools r.toolName
    (((c.inner.tools.get? r.toolName).getD (ToolStats.new c.bounds)).record
      (Outcome.classify r.outcome) r.ms)
  rw [ToolStats.calls_record] at hsum
  cases hs : c.inner.tools.get? r.toolName with
  | none =>
    rw [hs, Option.map_none, Option.getD_none, Option.getD_none] at hsum
    exact hsum
  | some s =>
    rw [hs, Option.map_some, Option.getD_some, Option.getD_some] at hsum
    rw [Option.getD_some]
    omega

/-! ## Runs -/

/-- Every record of the sequence finds the collector in a state where `P`. -/
def EveryRecord (P : MetricsCollector → ToolCallRecord → Prop) (config : MetricsConfig)
    (records : List ToolCallRecord) : Prop :=
  ∀ before record, before ++ [record] <+: records → P (recording config before) record

theorem recording_concat (config : MetricsConfig) (records : List ToolCallRecord)
    (record : ToolCallRecord) :
    recording config (records ++ [record]) = (recording config records).record record :=
  List.foldl_concat ..

theorem balanced_recording (config : MetricsConfig) (records : List ToolCallRecord) :
    Balanced (recording config records) := by
  induction records using List.reverseRecOn with
  | nil => exact balanced_new config
  | append_singleton records record ih =>
    rw [recording_concat]
    exact ih.record record

theorem sessionsFit_recording (h : EveryRecord Fits config records) :
    SessionsFit (recording config records) := by
  induction records using List.reverseRecOn with
  | nil =>
    intro id s hs
    rw [recording, List.foldl_nil, new, HashMap.get?_empty] at hs
    cases hs
  | append_singleton records record ih =>
    rw [recording_concat]
    refine (sessionsFit_record_iff (ih fun before r hbefore => ?_) record).mpr ?_
    · exact h before r (hbefore.trans (List.prefix_append _ _))
    · exact h records record List.prefix_rfl

theorem totalCalls_recording
    (h : EveryRecord (fun c record => ¬ ToolDropped c record) config records) :
    (recording config records).snapshot.totalCalls = records.length := by
  induction records using List.reverseRecOn with
  | nil =>
    rw [totalCalls_eq]
    rfl
  | append_singleton records record ih =>
    rw [recording_concat, totalCalls_record (h records record List.prefix_rfl),
      ih fun before r hbefore => h before r (hbefore.trans (List.prefix_append _ _)),
      List.length_append, List.length_singleton]

/-- What the metrics promise after a sequence of records: bounded maps, counters
that add up, and a total that misses nothing while no tool was dropped. -/
structure Consistent (config : MetricsConfig) (records : List ToolCallRecord) : Prop where
  balanced : Balanced (recording config records)
  perTool : SessionsFit (recording config records)
  total : EveryRecord (fun c record => ¬ ToolDropped c record) config records →
    (recording config records).snapshot.totalCalls = records.length

/-- **Bounded metrics.** The metrics are bounded and consistent after every
prefix of a sequence of records exactly when no record brings a session a new
tool name beyond the cap. -/
theorem consistent_iff (config : MetricsConfig) (records : List ToolCallRecord) :
    (∀ before, before <+: records → Consistent config before) ↔
      EveryRecord Fits config records := by
  constructor
  · intro h before record hbefore
    have hfit := (h _ hbefore).perTool
    rw [recording_concat] at hfit
    refine (sessionsFit_record_iff (h before ?_).perTool record).mp hfit
    exact (List.prefix_append _ _).trans hbefore
  · intro h before hbefore
    refine ⟨balanced_recording config before, ?_, totalCalls_recording⟩
    exact sessionsFit_recording fun before' record hbefore' =>
      h before' record (hbefore'.trans hbefore)

/-- With room for one tool, a session that calls two of them counts both. -/
theorem session_counts_two_tools :
    ¬ Consistent { MetricsConfig.default with maxTools := 1 }
      [⟨"a", "s", 0, .success false⟩, ⟨"b", "s", 0, .success false⟩] := by
  intro h
  have hfit := h.perTool "s" ⟨2, 0, ((HashMap.empty.insert "a" 1).insert "b" 1)⟩ rfl
  revert hfit
  decide

end MetricsCollector
end McpFramework.Metrics
