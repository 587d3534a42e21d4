import McpFramework.Lib.Capped
import McpFramework.Lib.Exposition
import McpFramework.Metrics.Collector
import Mathlib.Data.List.Nodup

/-!
# Metrics — Exposition

What a scrape reads (`metrics/collector.rs`).

The collector writes its series line by line, with the names of tools as they were
called. A scrape reads them back: for every tool that found room the counts of its
own records, whatever the names are.
-/

namespace McpFramework.Metrics

open Lib Lib.Exposition Lib.Escaping

/-! ## Rendering -/

def escapeLabel (s : String) : String :=
  String.ofList (replaceAll [('\\', "\\\\".toList), ('"', "\\\"".toList), ('\n', "\\n".toList)]
    s.toList)

/-- `v as i64`, for a float without a fraction. -/
def asI64 (v : ℤ) : ℤ := max (-(2 ^ 63)) (min v (2 ^ 63 - 1))

/-- `format_float`; `display` is how a float with a fraction is written. -/
def formatFloat (display : ℚ → String) (v : ℚ) : String :=
  if v.den = 1 then toString (asI64 v.num) else display v

def callLine (ns tool outcome : String) (count : Nat) : String :=
  ns ++ "_tool_calls_total\x7btool=\"" ++ tool ++ "\",outcome=\"" ++ outcome ++ "\"\x7d " ++
    toString count ++ "\n"

def callLines (ns name : String) (s : ToolStats) : String :=
  let tool := escapeLabel name
  callLine ns tool "success" s.success ++ callLine ns tool "tool_error" s.toolError ++
    callLine ns tool "mcp_error" s.mcpError

def bucketLine (ns tool le : String) (cumulative : Nat) : String :=
  ns ++ "_tool_call_duration_ms_bucket\x7btool=\"" ++ tool ++ "\",le=\"" ++ le ++ "\"\x7d " ++
    toString cumulative ++ "\n"

def latencyLines (display : ℚ → String) (ns name : String) (s : ToolStats) : String :=
  let tool := escapeLabel name
  String.join (s.latency.cumulativeBuckets.map fun e =>
      bucketLine ns tool (formatFloat display e.1) e.2) ++
    bucketLine ns tool "+Inf" s.latency.count ++
    (ns ++ "_tool_call_duration_ms_sum\x7btool=\"" ++ tool ++ "\"\x7d " ++
      formatFloat display s.latency.sumMs ++ "\n") ++
    (ns ++ "_tool_call_duration_ms_count\x7btool=\"" ++ tool ++ "\"\x7d " ++
      toString s.latency.count ++ "\n")

/-- The comments at the head of a family of series. -/
def familyHead (ns family help kind : String) : String :=
  String.join ["# HELP ", ns, family, " ", help, "\n", "# TYPE ", ns, family, " ", kind, "\n"]

namespace MetricsCollector

/-- `ns` is the namespace of the configuration. -/
def renderPrometheus (display : ℚ → String) (ns : String) (c : MetricsCollector) : String :=
  familyHead ns "_tool_calls_total" "Total tool calls by outcome." "counter" ++
  String.join (c.inner.tools.entries.map fun e => callLines ns e.1 e.2) ++
  familyHead ns "_tool_call_duration_ms" "Tool call latency in milliseconds." "histogram" ++
  String.join (c.inner.tools.entries.map fun e => latencyLines display ns e.1 e.2) ++
  familyHead ns "_active_sessions" "Number of sessions currently tracked." "gauge" ++
  (ns ++ "_active_sessions " ++ toString c.inner.sessions.len ++ "\n")

end MetricsCollector

/-! ## The lines of the text -/

def callSample (ns tool outcome : String) (count : Nat) : Sample :=
  { name := ns ++ "_tool_calls_total", labels := [("tool", tool), ("outcome", outcome)]
    value := toString count }

def bucketSample (ns tool le : String) (cumulative : Nat) : Sample :=
  { name := ns ++ "_tool_call_duration_ms_bucket", labels := [("tool", tool), ("le", le)]
    value := toString cumulative }

def statSample (ns name tool value : String) : Sample :=
  { name := ns ++ name, labels := [("tool", tool)], value := value }

def sessionsSample (ns : String) (count : Nat) : Sample :=
  { name := ns ++ "_active_sessions", labels := [], value := toString count }

/-- The three counters of a tool. -/
def callSamples (ns tool : String) (count : Outcome → Nat) : List Sample :=
  [callSample ns tool "success" (count .success),
    callSample ns tool "tool_error" (count .toolError),
    callSample ns tool "mcp_error" (count .mcpError)]

/-- The histogram of a tool. -/
def latencySamples (display : ℚ → String) (ns tool : String) (buckets : List (ℚ × Nat))
    (count : Nat) (sumMs : ℚ) : List Sample :=
  (buckets.map fun e => bucketSample ns tool (formatFloat display e.1) e.2) ++
    [bucketSample ns tool "+Inf" count,
      statSample ns "_tool_call_duration_ms_sum" tool (formatFloat display sumMs),
      statSample ns "_tool_call_duration_ms_count" tool (toString count)]

def ToolStats.count (s : ToolStats) : Outcome → Nat
  | .success => s.success
  | .toolError => s.toolError
  | .mcpError => s.mcpError

/-- The two comments before a family of series. -/
def familyComments (ns family help kind : String) : List Line :=
  [.comment (" HELP " ++ ns ++ family ++ " " ++ help),
    .comment (" TYPE " ++ ns ++ family ++ " " ++ kind)]

def writeLines (lines : List Line) : List Char := lines.flatMap fun line => writeLine line ++ ['\n']

theorem writeLines_append (lines lines' : List Line) :
    writeLines (lines ++ lines') = writeLines lines ++ writeLines lines' :=
  List.flatMap_append

theorem toList_familyHead (ns family help kind : String) :
    (familyHead ns family help kind).toList = writeLines (familyComments ns family help kind) := by
  simp [familyHead, familyComments, writeLines, writeLine]

theorem toList_escapeLabel (s : String) :
    (escapeLabel s).toList = substitute labelRules s.toList := by
  rw [escapeLabel, String.toList_ofList]
  exact replaceAll_eq ordered_labelRules s.toList

theorem toList_callLine (ns name : String) {outcome : String}
    (houtcome : ∀ rule ∈ labelRules, rule.1 ∉ outcome.toList) (count : Nat) :
    (callLine ns (escapeLabel name) outcome count).toList =
      writeLines [.sample (callSample ns name outcome count)] := by
  simp [callLine, writeLines, writeLine, writeSample, writeLabels, writeLabel, callSample,
    toList_escapeLabel, substitute_of_notMem houtcome]

theorem toList_bucketLine (ns name : String) {le : String}
    (hle : ∀ rule ∈ labelRules, rule.1 ∉ le.toList) (count : Nat) :
    (bucketLine ns (escapeLabel name) le count).toList =
      writeLines [.sample (bucketSample ns name le count)] := by
  simp [bucketLine, writeLines, writeLine, writeSample, writeLabels, writeLabel, bucketSample,
    toList_escapeLabel, substitute_of_notMem hle]

/-- A float is written with digits, a point and a sign. -/
def DisplaysPlainly (display : ℚ → String) : Prop :=
  ∀ v, ∀ c ∈ (display v).toList, c.isDigit = true ∨ c = '.' ∨ c = '-'

theorem isDigit_of_mem_toString {n : Nat} {c : Char} (hc : c ∈ (toString n).toList) :
    c.isDigit = true := by
  have hdigits : (toString n).toList = Nat.toDigits 10 n := by
    simp [Nat.repr]
  rw [hdigits] at hc
  exact Nat.isDigit_of_mem_toDigits (by decide) (by decide) hc

theorem plain_formatFloat {display : ℚ → String} (h : DisplaysPlainly display) (v : ℚ) :
    ∀ c ∈ (formatFloat display v).toList, c.isDigit = true ∨ c = '.' ∨ c = '-' := by
  intro c hc
  rw [formatFloat] at hc
  split at hc
  · cases hn : asI64 v.num with
    | ofNat n =>
      rw [hn] at hc
      exact Or.inl (isDigit_of_mem_toString hc)
    | negSucc n =>
      rw [hn] at hc
      have hsign : toString (Int.negSucc n) = "-" ++ toString (n + 1) := rfl
      rw [hsign, String.toList_append] at hc
      rcases List.mem_append.mp hc with hc | hc
      · exact Or.inr (Or.inr (List.mem_singleton.mp hc))
      · exact Or.inl (isDigit_of_mem_toString hc)
  · exact h v c hc

theorem notMem_formatFloat {display : ℚ → String} (h : DisplaysPlainly display) (v : ℚ) {c : Char}
    (hdigit : c.isDigit = false) (hpoint : c ≠ '.') (hsign : c ≠ '-') :
    c ∉ (formatFloat display v).toList := by
  intro hc
  rcases plain_formatFloat h v c hc with hc | hc | hc
  · rw [hdigit] at hc
    cases hc
  · exact hpoint hc
  · exact hsign hc

theorem formatFloat_unescaped {display : ℚ → String} (h : DisplaysPlainly display) (v : ℚ) :
    ∀ rule ∈ labelRules, rule.1 ∉ (formatFloat display v).toList := by
  intro rule hrule
  simp only [labelRules, List.mem_cons, List.not_mem_nil, or_false] at hrule
  rcases hrule with rfl | rfl | rfl
  · exact notMem_formatFloat h v (by decide) (by decide) (by decide)
  · exact notMem_formatFloat h v (by decide) (by decide) (by decide)
  · exact notMem_formatFloat h v (by decide) (by decide) (by decide)

theorem toList_callLines (ns name : String) (s : ToolStats) :
    (callLines ns name s).toList = writeLines ((callSamples ns name s.count).map .sample) := by
  rw [callLines, String.toList_append, String.toList_append, toList_callLine ns name (by decide),
    toList_callLine ns name (by decide), toList_callLine ns name (by decide), ← writeLines_append,
    ← writeLines_append]
  rfl

theorem toList_latencyLines {display : ℚ → String} (h : DisplaysPlainly display) (ns name : String)
    (s : ToolStats) :
    (latencyLines display ns name s).toList = writeLines ((latencySamples display ns name
      s.latency.cumulativeBuckets s.latency.count s.latency.sumMs).map .sample) := by
  have hbuckets : ∀ buckets : List (ℚ × Nat), (String.join (buckets.map fun e =>
      bucketLine ns (escapeLabel name) (formatFloat display e.1) e.2)).toList = writeLines
        ((buckets.map fun e =>
          bucketSample ns name (formatFloat display e.1) e.2).map .sample) := by
    intro buckets
    rw [String.toList_join, writeLines, List.map_map, List.flatMap_map, List.flatMap_map]
    congr 1
    funext e
    rw [toList_bucketLine ns name (formatFloat_unescaped h e.1)]
    simp [writeLines]
  rw [latencyLines, latencySamples, List.map_append, writeLines_append, ← hbuckets]
  simp only [String.toList_append, @toList_bucketLine ns name "+Inf" (by decide)]
  simp [writeLines, writeLine, writeSample, writeLabels, writeLabel, statSample, bucketSample,
    toList_escapeLabel]

theorem toList_sessionsLine (ns : String) (count : Nat) :
    (ns ++ "_active_sessions " ++ toString count ++ "\n").toList =
      writeLines [.sample (sessionsSample ns count)] := by
  simp [writeLines, writeLine, writeSample, sessionsSample]

/-! ## Reading the text back -/

namespace MetricsCollector

variable {display : ℚ → String} {ns : String} {config : MetricsConfig}
  {records : List ToolCallRecord}

/-- The series of a collector, in the order of the text. -/
def samples (display : ℚ → String) (ns : String) (c : MetricsCollector) : List Sample :=
  (c.inner.tools.entries.flatMap fun e => callSamples ns e.1 e.2.count) ++
    (c.inner.tools.entries.flatMap fun e => latencySamples display ns e.1
      e.2.latency.cumulativeBuckets e.2.latency.count e.2.latency.sumMs) ++
    [sessionsSample ns c.inner.sessions.len]

def expositionLines (display : ℚ → String) (ns : String) (c : MetricsCollector) : List Line :=
  familyComments ns "_tool_calls_total" "Total tool calls by outcome." "counter" ++
    (c.inner.tools.entries.flatMap fun e => (callSamples ns e.1 e.2.count).map Line.sample) ++
    familyComments ns "_tool_call_duration_ms" "Tool call latency in milliseconds." "histogram" ++
    (c.inner.tools.entries.flatMap fun e => (latencySamples display ns e.1
      e.2.latency.cumulativeBuckets e.2.latency.count e.2.latency.sumMs).map Line.sample) ++
    familyComments ns "_active_sessions" "Number of sessions currently tracked." "gauge" ++
    [Line.sample (sessionsSample ns c.inner.sessions.len)]

theorem toList_join_map {E : Type*} (entries : List E) {text : E → String}
    {lines : E → List Line} (h : ∀ e, (text e).toList = writeLines (lines e)) :
    (String.join (entries.map text)).toList = writeLines (entries.flatMap lines) := by
  induction entries with
  | nil => rfl
  | cons e entries ih =>
    rw [String.toList_join] at ih ⊢
    rw [List.map_cons, List.flatMap_cons, h e, ih, List.flatMap_cons, writeLines_append]

theorem toList_renderPrometheus (h : DisplaysPlainly display) (ns : String)
    (c : MetricsCollector) :
    (renderPrometheus display ns c).toList = writeLines (expositionLines display ns c) := by
  have hcalls := toList_join_map c.inner.tools.entries fun e => toList_callLines ns e.1 e.2
  have hlatency := toList_join_map c.inner.tools.entries fun e => toList_latencyLines h ns e.1 e.2
  rw [renderPrometheus, String.toList_append, toList_sessionsLine]
  simp only [expositionLines, String.toList_append, toList_familyHead, hcalls, hlatency,
    writeLines_append]

theorem filterMap_samples (samples : List Sample) :
    (samples.map Line.sample).filterMap Line.sample? = samples := by
  rw [List.filterMap_map]
  exact List.filterMap_some

theorem samples_expositionLines (display : ℚ → String) (ns : String) (c : MetricsCollector) :
    (expositionLines display ns c).filterMap Line.sample? = samples display ns c := by
  have hcomments : ∀ family help kind,
      (familyComments ns family help kind).filterMap Line.sample? = [] := fun _ _ _ => rfl
  have hlast := filterMap_samples [sessionsSample ns c.inner.sessions.len]
  rw [List.map_cons, List.map_nil] at hlast
  simp only [expositionLines, List.filterMap_append, ← List.map_flatMap, filterMap_samples,
    hcomments, hlast, List.nil_append, List.append_nil, samples]

/-! ## What is written is well formed -/

theorem named_two {name : String} (h : IsName name) (tool x : String) :
    ∀ l ∈ [("tool", tool), (name, x)], IsName l.1 := by
  have htool : IsName "tool" := by decide
  exact List.forall_mem_cons.mpr ⟨htool, List.forall_mem_singleton.mpr h⟩

theorem newline_notMem_toString (n : Nat) : '\n' ∉ (toString n).toList := by
  intro hc
  have hdigit := isDigit_of_mem_toString hc
  revert hdigit
  decide

theorem wellFormed_callSamples (hns : IsName ns) (tool : String) (count : Outcome → Nat) :
    ∀ s ∈ callSamples ns tool count, s.WellFormed := by
  have hname : IsName (ns ++ "_tool_calls_total") := hns.append (by decide)
  have hone : ∀ outcome n, (callSample ns tool outcome n).WellFormed := fun outcome n =>
    ⟨hname, named_two (by decide) tool outcome, newline_notMem_toString n⟩
  simp [callSamples, hone]

theorem wellFormed_latencySamples (hdisplay : DisplaysPlainly display) (hns : IsName ns)
    (tool : String) (buckets : List (ℚ × Nat)) (count : Nat) (sumMs : ℚ) :
    ∀ s ∈ latencySamples display ns tool buckets count sumMs, s.WellFormed := by
  have hname : IsName (ns ++ "_tool_call_duration_ms_bucket") := hns.append (by decide)
  have hbucket : ∀ le n, (bucketSample ns tool le n).WellFormed := fun le n =>
    ⟨hname, named_two (by decide) tool le, newline_notMem_toString n⟩
  have hstat : ∀ name value, IsName name → '\n' ∉ value.toList →
      (statSample ns name tool value).WellFormed := by
    intro name value hstat hvalue
    have htool : IsName "tool" := by decide
    exact ⟨hns.append hstat, List.forall_mem_singleton.mpr htool, hvalue⟩
  have hsum : '\n' ∉ (formatFloat display sumMs).toList :=
    notMem_formatFloat hdisplay sumMs (by decide) (by decide) (by decide)
  intro s hs
  rcases List.mem_append.mp hs with hs | hs
  · obtain ⟨e, -, rfl⟩ := List.mem_map.mp hs
    exact hbucket _ _
  · simp only [List.mem_cons, List.not_mem_nil, or_false] at hs
    rcases hs with rfl | rfl | rfl
    · exact hbucket _ _
    · exact hstat _ _ (by decide) hsum
    · exact hstat _ _ (by decide) (newline_notMem_toString count)

theorem wellFormed_samples (hdisplay : DisplaysPlainly display) (hns : IsName ns)
    (c : MetricsCollector) : ∀ s ∈ samples display ns c, s.WellFormed := by
  intro s hs
  rw [samples] at hs
  rcases List.mem_append.mp hs with hs | hs
  · rcases List.mem_append.mp hs with hs | hs
    · obtain ⟨e, -, hs⟩ := List.mem_flatMap.mp hs
      exact wellFormed_callSamples hns _ _ s hs
    · obtain ⟨e, -, hs⟩ := List.mem_flatMap.mp hs
      exact wellFormed_latencySamples hdisplay hns _ _ _ _ s hs
  · obtain rfl := List.mem_singleton.mp hs
    exact ⟨hns.append (by decide), List.forall_mem_nil _, newline_notMem_toString _⟩

theorem wellFormed_familyComments (hns : IsName ns) {family help kind : String}
    (hfamily : '\n' ∉ family.toList) (hhelp : '\n' ∉ help.toList) (hkind : '\n' ∉ kind.toList) :
    ∀ line ∈ familyComments ns family help kind, line.WellFormed := by
  have hnewline : '\n' ∉ ns.toList := fun hmem =>
    hns.ne hmem (by decide) (by decide) (by decide) rfl
  intro line hline
  simp only [familyComments, List.mem_cons, List.not_mem_nil, or_false] at hline
  rcases hline with rfl | rfl
  · simp [Line.WellFormed, hnewline, hfamily, hhelp]
  · simp [Line.WellFormed, hnewline, hfamily, hkind]

theorem wellFormed_expositionLines (hdisplay : DisplaysPlainly display) (hns : IsName ns)
    (c : MetricsCollector) : ∀ line ∈ expositionLines display ns c, line.WellFormed := by
  intro line hline
  cases line with
  | comment text =>
    have hcomment : Line.comment text ∈ familyComments ns "_tool_calls_total"
          "Total tool calls by outcome." "counter" ∨
        Line.comment text ∈ familyComments ns "_tool_call_duration_ms"
          "Tool call latency in milliseconds." "histogram" ∨
        Line.comment text ∈ familyComments ns "_active_sessions"
          "Number of sessions currently tracked." "gauge" := by
      simpa [expositionLines] using hline
    rcases hcomment with h | h | h
    · exact wellFormed_familyComments hns (by decide) (by decide) (by decide) _ h
    · exact wellFormed_familyComments hns (by decide) (by decide) (by decide) _ h
    · exact wellFormed_familyComments hns (by decide) (by decide) (by decide) _ h
  | sample s =>
    have hs : s ∈ samples display ns c := by
      rw [← samples_expositionLines]
      exact List.mem_filterMap.mpr ⟨Line.sample s, hline, rfl⟩
    exact wellFormed_samples hdisplay hns c s hs

/-- A scrape reads the series of the collector. -/
theorem readExposition_render (hdisplay : DisplaysPlainly display) (hns : IsName ns)
    (c : MetricsCollector) :
    readExposition (renderPrometheus display ns c).toList = some (samples display ns c) := by
  rw [toList_renderPrometheus hdisplay, writeLines,
    readExposition_lines (wellFormed_expositionLines hdisplay hns c), samples_expositionLines]

/-! ## What the series say -/

/-- The records of one tool. -/
def ownRecords (records : List ToolCallRecord) (tool : String) : List ToolCallRecord :=
  records.filter fun record => record.toolName = tool

theorem recording_fields (config : MetricsConfig) (records : List ToolCallRecord) :
    (recording config records).config = config ∧
      (recording config records).bounds = sortedBounds config.latencyBucketsMs := by
  induction records using List.reverseRecOn with
  | nil => exact ⟨rfl, rfl⟩
  | append_singleton records record ih =>
    rw [recording_concat]
    exact ih

/-- The tools of a collector, as a capped map. -/
theorem tools_recording (config : MetricsConfig) (records : List ToolCallRecord) :
    (recording config records).inner.tools = Capped.updates config.maxTools
      (ToolStats.new (sortedBounds config.latencyBucketsMs)) ToolCallRecord.toolName
      (fun record stats => stats.record (Outcome.classify record.outcome) record.ms) records := by
  induction records using List.reverseRecOn with
  | nil => rfl
  | append_singleton records record ih =>
    obtain ⟨hconfig, hbounds⟩ := recording_fields config records
    rw [recording_concat, Capped.updates_concat, ← ih]
    show (recording config records).recordTool record = _
    rw [recordTool, hconfig, hbounds]

/-- How many sessions the collector counts. -/
theorem sessions_recording (config : MetricsConfig) (records : List ToolCallRecord) :
    (recording config records).inner.sessions.len =
      if config.trackSessions then
        min config.maxSessions (records.map ToolCallRecord.sessionId).toFinset.card
      else 0 := by
  have hmap : (recording config records).inner.sessions =
      if config.trackSessions then
        Capped.updates config.maxSessions SessionStats.default ToolCallRecord.sessionId
          (fun record stats => stats.record (Outcome.classify record.outcome) record.toolName)
          records
      else HashMap.empty := by
    induction records using List.reverseRecOn with
    | nil => split <;> rfl
    | append_singleton records record ih =>
      obtain ⟨hconfig, -⟩ := recording_fields config records
      rw [recording_concat]
      show (recording config records).recordSession record = _
      rw [recordSession, hconfig, ih]
      split
      · rw [Capped.updates_concat]
      · rfl
  rw [hmap]
  split
  · exact Capped.len_updates ..
  · rfl

/-- The counters and the histogram of these records. -/
def statsOf (bounds : Bounds) (records : List ToolCallRecord) : ToolStats :=
  records.foldl (fun s record => s.record (Outcome.classify record.outcome) record.ms)
    (ToolStats.new bounds)

theorem count_record (s : ToolStats) (o outcome : Outcome) (ms : ℚ) :
    (s.record o ms).count outcome = s.count outcome + if o = outcome then 1 else 0 := by
  cases o <;> cases outcome <;> rfl

theorem count_statsOf (bounds : Bounds) (records : List ToolCallRecord) (outcome : Outcome) :
    (statsOf bounds records).count outcome =
      records.countP fun record => Outcome.classify record.outcome = outcome := by
  induction records using List.reverseRecOn with
  | nil => cases outcome <;> rfl
  | append_singleton records record ih =>
    rw [statsOf, List.foldl_concat, ← statsOf, count_record, ih, List.countP_append,
      List.countP_singleton]
    simp only [decide_eq_true_eq]

theorem latency_statsOf (bounds : Bounds) (records : List ToolCallRecord) :
    (statsOf bounds records).latency =
      Histogram.observing bounds (records.map ToolCallRecord.ms) := by
  induction records using List.reverseRecOn with
  | nil => rfl
  | append_singleton records record ih =>
    rw [statsOf, List.foldl_concat, ← statsOf, Histogram.observing, List.map_append, List.map_cons,
      List.map_nil, List.foldl_concat, ← Histogram.observing, ← ih]
    rfl

theorem sumMs_observing (bounds : Bounds) (observations : List ℚ) :
    (Histogram.observing bounds observations).sumMs = observations.sum := by
  induction observations using List.reverseRecOn with
  | nil => rfl
  | append_singleton observations ms ih =>
    rw [Histogram.observing, List.foldl_concat, ← Histogram.observing, List.sum_append,
      List.sum_singleton, ← ih]
    rfl

/-- How many of the records ended in this way. -/
def outcomes (records : List ToolCallRecord) (outcome : Outcome) : Nat :=
  records.countP fun record => Outcome.classify record.outcome = outcome

/-- For each bound how many of the records were no slower. -/
def upTo (bounds : Bounds) (records : List ToolCallRecord) : List (ℚ × Nat) :=
  bounds.values.map fun b => (b, records.countP fun record => decide (record.ms ≤ b))

theorem cumulativeBuckets_statsOf (bounds : Bounds) (records : List ToolCallRecord) :
    (statsOf bounds records).latency.cumulativeBuckets = upTo bounds records := by
  rw [latency_statsOf, (Histogram.counted_observing bounds _).cumulativeBuckets,
    Histogram.bounds_observing, upTo]
  refine List.map_congr_left fun b _ => ?_
  rw [List.countP_map]
  rfl

theorem latencyCount_statsOf (bounds : Bounds) (records : List ToolCallRecord) :
    (statsOf bounds records).latency.count = records.length := by
  rw [latency_statsOf, (Histogram.counted_observing bounds _).count, List.length_map]

/-- The tools whose series a scrape shows. -/
def shownTools (config : MetricsConfig) (records : List ToolCallRecord) : List String :=
  (recording config records).inner.tools.keys

theorem mem_shownTools (config : MetricsConfig) (records : List ToolCallRecord) (tool : String) :
    tool ∈ shownTools config records ↔
      Capped.Admitted config.maxTools (records.map ToolCallRecord.toolName) tool := by
  rw [shownTools, tools_recording, ← HashMap.containsKey_iff, (Capped.holds_updates ..).containsKey]

/-- An entry holds what its own records make. -/
theorem entries_recording {e : Sigma fun _ : String => ToolStats}
    (he : e ∈ (recording config records).inner.tools.entries) :
    e.2 = statsOf (sortedBounds config.latencyBucketsMs) (ownRecords records e.1) := by
  have hget := (HashMap.mem_entries_iff _ e.1 e.2).mp he
  rw [tools_recording, Capped.get?_updates] at hget
  split at hget
  · exact (Option.some.inj hget).symm
  · cases hget

/-- The series of a collector, from the records alone. -/
theorem samples_recording (display : ℚ → String) (ns : String) (config : MetricsConfig)
    (records : List ToolCallRecord) :
    samples display ns (recording config records) =
      ((shownTools config records).flatMap fun tool =>
        callSamples ns tool (outcomes (ownRecords records tool))) ++
      ((shownTools config records).flatMap fun tool =>
        latencySamples display ns tool
          (upTo (sortedBounds config.latencyBucketsMs) (ownRecords records tool))
          (ownRecords records tool).length ((ownRecords records tool).map ToolCallRecord.ms).sum) ++
      [sessionsSample ns (if config.trackSessions then
          min config.maxSessions (records.map ToolCallRecord.sessionId).toFinset.card else 0)] := by
  have hkeys : shownTools config records =
      (recording config records).inner.tools.entries.map Sigma.fst := rfl
  rw [samples, sessions_recording, hkeys, List.flatMap_map, List.flatMap_map]
  congr 2
  · refine List.flatMap_congr fun e he => ?_
    have hstats := entries_recording he
    have hcount : e.2.count = outcomes (ownRecords records e.1) := by
      funext outcome
      rw [hstats, count_statsOf]
      rfl
    rw [hcount]
  · refine List.flatMap_congr fun e he => ?_
    rw [entries_recording he, cumulativeBuckets_statsOf, latencyCount_statsOf, latency_statsOf,
      sumMs_observing]

/-! ## No series twice -/

/-- What identifies a series. -/
def series (s : Sample) : String × List (String × String) := (s.name, s.labels)

theorem nodup_callSeries (ns tool : String) (count : Outcome → Nat) :
    ((callSamples ns tool count).map series).Nodup := by
  simp [callSamples, callSample, series]

theorem nodup_latencySeries_iff (hdisplay : DisplaysPlainly display) (ns tool : String)
    (buckets : List (ℚ × Nat)) (count : Nat) (sumMs : ℚ) :
    ((latencySamples display ns tool buckets count sumMs).map series).Nodup ↔
      (buckets.map fun e => formatFloat display e.1).Nodup := by
  have hinf : ∀ v, formatFloat display v ≠ "+Inf" := by
    intro v hv
    have hplus : '+' ∉ (formatFloat display v).toList :=
      notMem_formatFloat hdisplay v (by decide) (by decide) (by decide)
    rw [hv] at hplus
    exact hplus (by decide)
  have hinj : Function.Injective fun le : String =>
      series (bucketSample ns tool le 0) := by
    intro le le' h
    simpa [series, bucketSample] using h
  have hbuckets : (buckets.map fun e => bucketSample ns tool (formatFloat display e.1) e.2).map
      series = (buckets.map fun e => formatFloat display e.1).map fun le =>
        series (bucketSample ns tool le 0) := by
    rw [List.map_map, List.map_map]
    rfl
  rw [latencySamples, List.map_append, hbuckets, List.nodup_append, List.nodup_map_iff hinj]
  refine ⟨fun h => h.1, fun h => ⟨h, ?_, ?_⟩⟩
  · simp [series, bucketSample, statSample]
  · intro x hx y hy
    obtain ⟨le, hle, rfl⟩ := List.mem_map.mp hx
    obtain ⟨e, -, rfl⟩ := List.mem_map.mp hle
    have hne := hinf e.1
    simp only [List.map_cons, List.map_nil, List.mem_cons, List.not_mem_nil, or_false] at hy
    rcases hy with rfl | rfl | rfl
    · simpa [series, bucketSample] using hne
    · simp [series, bucketSample, statSample]
    · simp [series, bucketSample, statSample]

/-- Series that carry the name of their tool are different for different tools. -/
theorem nodup_flatMap_tools {tools : List String} (htools : tools.Nodup)
    {f : String → List (String × List (String × String))}
    (hf : ∀ tool, ∀ x ∈ f tool, x.2.head? = some ("tool", tool)) :
    (tools.flatMap f).Nodup ↔ ∀ tool ∈ tools, (f tool).Nodup := by
  rw [List.nodup_flatMap]
  refine and_iff_left (htools.imp fun {tool tool'} hne x hx hx' => ?_)
  have hlabel := hf tool x hx
  rw [hf tool' x hx', Option.some.injEq, Prod.mk.injEq] at hlabel
  exact hne hlabel.2.symm

theorem head_callSeries (ns tool : String) (count : Outcome → Nat) :
    ∀ x ∈ (callSamples ns tool count).map series,
      x.1 = ns ++ "_tool_calls_total" ∧ x.2.head? = some ("tool", tool) := by
  simp [callSamples, callSample, series]

theorem head_latencySeries (display : ℚ → String) (ns tool : String) (buckets : List (ℚ × Nat))
    (count : Nat) (sumMs : ℚ) :
    ∀ x ∈ (latencySamples display ns tool buckets count sumMs).map series,
      x.1 ≠ ns ++ "_tool_calls_total" ∧ x.2.head? = some ("tool", tool) := by
  intro x hx
  obtain ⟨s, hs, rfl⟩ := List.mem_map.mp hx
  rcases List.mem_append.mp hs with hs | hs
  · obtain ⟨e, -, rfl⟩ := List.mem_map.mp hs
    simp [series, bucketSample]
  · simp only [List.mem_cons, List.not_mem_nil, or_false] at hs
    rcases hs with rfl | rfl | rfl <;> simp [series, bucketSample, statSample]

/-- No series is there twice exactly if the bounds are written differently. -/
theorem nodup_series_iff (hdisplay : DisplaysPlainly display) {tools : List String}
    (htools : tools.Nodup) (ns : String) (count : String → Outcome → Nat) (bounds : Bounds)
    (own : String → List ToolCallRecord) (sumMs : String → ℚ) (active : Nat) :
    (((tools.flatMap fun tool => callSamples ns tool (count tool)) ++
      (tools.flatMap fun tool => latencySamples display ns tool (upTo bounds (own tool))
        (own tool).length (sumMs tool)) ++ [sessionsSample ns active]).map series).Nodup ↔
      tools = [] ∨ (bounds.values.map (formatFloat display)).Nodup := by
  have hcalls : (tools.flatMap fun tool =>
      (callSamples ns tool (count tool)).map series).Nodup := by
    refine (nodup_flatMap_tools htools fun tool x hx => (head_callSeries _ _ _ x hx).2).mpr ?_
    exact fun tool _ => nodup_callSeries ns tool _
  have hbounds : ∀ own, ((upTo bounds own).map fun e => formatFloat display e.1) =
      bounds.values.map (formatFloat display) := by
    intro own
    rw [upTo, List.map_map]
    rfl
  have hlatency : (tools.flatMap fun tool => (latencySamples display ns tool
        (upTo bounds (own tool)) (own tool).length (sumMs tool)).map series).Nodup ↔
      tools = [] ∨ (bounds.values.map (formatFloat display)).Nodup := by
    rw [nodup_flatMap_tools htools fun tool x hx => (head_latencySeries _ _ _ _ _ _ x hx).2]
    simp only [nodup_latencySeries_iff hdisplay, hbounds]
    cases tools with
    | nil => simp
    | cons tool tools =>
      exact ⟨fun h => Or.inr (h tool List.mem_cons_self),
        fun h _ _ => h.resolve_left (List.cons_ne_nil _ _)⟩
  rw [List.map_append, List.map_append, List.map_flatMap, List.map_flatMap, List.nodup_append,
    List.nodup_append, hlatency]
  refine ⟨fun h => h.1.2.1, fun h => ⟨⟨hcalls, h, ?_⟩, List.nodup_singleton _, ?_⟩⟩
  · intro x hx y hy heq
    obtain ⟨tool, -, hx⟩ := List.mem_flatMap.mp hx
    obtain ⟨tool', -, hy⟩ := List.mem_flatMap.mp hy
    apply (head_latencySeries _ _ _ _ _ _ y hy).1
    rw [← heq, (head_callSeries _ _ _ x hx).1]
  · intro x hx y hy heq
    have hhead : ∃ tool, x.2.head? = some ("tool", tool) := by
      rcases List.mem_append.mp hx with hx | hx
      · obtain ⟨tool, -, hx⟩ := List.mem_flatMap.mp hx
        exact ⟨tool, (head_callSeries _ _ _ x hx).2⟩
      · obtain ⟨tool, -, hx⟩ := List.mem_flatMap.mp hx
        exact ⟨tool, (head_latencySeries _ _ _ _ _ _ x hx).2⟩
    obtain ⟨tool, hhead⟩ := hhead
    obtain rfl := List.mem_singleton.mp hy
    rw [heq] at hhead
    cases hhead

/-- **What a scrape reads.** For every sequence of records, whatever the names of
the tools: the text is read back as the series of the tools that found room, each
with the counts of its own records and no others, and the number of sessions. No
series is there twice unless two bounds are written alike. -/
theorem scrape_reads (hdisplay : DisplaysPlainly display) (hns : IsName ns)
    (config : MetricsConfig) (records : List ToolCallRecord) :
    ∃ tools : List String, ∃ samples : List Sample, tools.Nodup ∧
      (∀ tool, tool ∈ tools ↔
        Capped.Admitted config.maxTools (records.map ToolCallRecord.toolName) tool) ∧
      readExposition (renderPrometheus display ns (recording config records)).toList =
        some samples ∧
      samples =
        (tools.flatMap fun tool => callSamples ns tool (outcomes (ownRecords records tool))) ++
        (tools.flatMap fun tool => latencySamples display ns tool
          (upTo (sortedBounds config.latencyBucketsMs) (ownRecords records tool))
          (ownRecords records tool).length
          ((ownRecords records tool).map ToolCallRecord.ms).sum) ++
        [sessionsSample ns (if config.trackSessions then
          min config.maxSessions (records.map ToolCallRecord.sessionId).toFinset.card else 0)] ∧
      ((samples.map series).Nodup ↔ tools = [] ∨
        ((sortedBounds config.latencyBucketsMs).values.map (formatFloat display)).Nodup) := by
  have hnodup : (shownTools config records).Nodup :=
    AList.keys_nodup (recording config records).inner.tools
  refine ⟨shownTools config records, _, hnodup, mem_shownTools config records,
    readExposition_render hdisplay hns _, samples_recording display ns config records, ?_⟩
  rw [samples_recording]
  exact nodup_series_iff hdisplay hnodup ns _ _ _ _ _

/-- Halves are written like this. -/
def displayHalf (v : ℚ) : String := toString v.floor.toNat ++ ".5"

theorem displayHalf_plain : DisplaysPlainly displayHalf := by
  have hhalf : ∀ c ∈ ".5".toList, c.isDigit = true ∨ c = '.' ∨ c = '-' := by
    intro c hc
    have hcases : c = '.' ∨ c = '5' := by simpa using hc
    rcases hcases with rfl | rfl
    · exact Or.inr (Or.inl rfl)
    · exact Or.inl rfl
  intro v c hc
  rw [displayHalf, String.toList_append] at hc
  rcases List.mem_append.mp hc with hc | hc
  · exact Or.inl (isDigit_of_mem_toString hc)
  · exact hhalf c hc

/-- A call of a tool whose name ends its label and starts a line. -/
theorem forged_name_is_read : ∃ samples : List Sample,
    readExposition (renderPrometheus displayHalf "mcp" (recording MetricsConfig.default
      [⟨"a\"\x7d 7\nb", "s", 1500000, .success false⟩])).toList = some samples ∧
    callSample "mcp" "a\"\x7d 7\nb" "success" 1 ∈ samples := by
  obtain ⟨tools, samples, -, htools, hread, hsamples, -⟩ :=
    scrape_reads displayHalf_plain (by decide : IsName "mcp") MetricsConfig.default
      [⟨"a\"\x7d 7\nb", "s", 1500000, .success false⟩]
  refine ⟨samples, hread, ?_⟩
  have hshown : "a\"\x7d 7\nb" ∈ tools := (htools _).mpr (by decide)
  rw [hsamples]
  refine List.mem_append_left _ (List.mem_append_left _ (List.mem_flatMap.mpr ⟨_, hshown, ?_⟩))
  exact List.mem_cons_self

end MetricsCollector
end McpFramework.Metrics
