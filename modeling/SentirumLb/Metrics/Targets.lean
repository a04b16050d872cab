import SentirumLb.Lib.Exposition
import SentirumLb.Route.TargetStats

/-! # The metrics of the targets

The admin API shows the counters of every target in the text format of
Prometheus. Services, hosts and paths come from route definitions and can hold
any characters, so they are escaped.
-/

namespace SentirumLb

namespace Table

variable {W : Type}

def iterTargets (t : Table W) : List (String × Route W × Arc (Target W)) :=
  t.routes.entries.flatMap fun e => e.2.flatMap fun route =>
    route.targets.map fun target => (e.1, route, target)

end Table

namespace Metrics

open Exposition

def escapePrometheusLabel (s : String) : String :=
  String.ofList (s.toList.flatMap fun
    | '\\' => ['\\', '\\']
    | '"' => ['\\', '"']
    | '\n' => ['\\', 'n']
    | c => [c])

def protocolName : UpstreamProtocol → String
  | .http => "http"
  | .https => "https"
  | .grpc => "grpc"
  | .grpcs => "grpcs"
  | .ws => "ws"
  | .wss => "wss"
  | .tcp => "tcp"

structure TargetCounters where
  requests : ℕ
  errors : ℕ
  latencySumUs : ℕ
  bytes : ℕ
  circuitState : CircuitState

def circuitValue : CircuitState → ℕ
  | .closed => 0
  | .opened => 2
  | .halfOpen => 1

def targetsHeader : List String :=
  ["# HELP sentirum_lb_target_requests_total Requests per target\n",
    "# TYPE sentirum_lb_target_requests_total counter\n",
    "# HELP sentirum_lb_target_errors_total Errors per target\n",
    "# TYPE sentirum_lb_target_errors_total counter\n",
    "# HELP sentirum_lb_target_latency_us_total Total latency per target\n",
    "# TYPE sentirum_lb_target_latency_us_total counter\n",
    "# HELP sentirum_lb_target_bytes_total Bytes per target\n",
    "# TYPE sentirum_lb_target_bytes_total counter\n",
    "# HELP sentirum_lb_target_circuit_breaker_state " ++
      "Circuit breaker state (0=closed, 1=half-open, 2=open)\n",
    "# TYPE sentirum_lb_target_circuit_breaker_state gauge\n"]

def targetLine (name svc h p proto : String) (value : ℕ) : String :=
  name ++ "\x7bservice=\"" ++ svc ++ "\",host=\"" ++ h ++ "\",path=\"" ++ p ++
    "\",protocol=\"" ++ proto ++ "\"\x7d " ++ toString value ++ "\n"

def TargetCounters.metrics (c : TargetCounters) : List (String × ℕ) :=
  [("sentirum_lb_target_requests_total", c.requests),
    ("sentirum_lb_target_errors_total", c.errors),
    ("sentirum_lb_target_latency_us_total", c.latencySumUs),
    ("sentirum_lb_target_bytes_total", c.bytes),
    ("sentirum_lb_target_circuit_breaker_state", circuitValue c.circuitState)]

variable {W : Type} (read : Target W → TargetCounters)

def targetLines (e : String × Route W × Arc (Target W)) : List String :=
  let (host, route, target) := e
  let svc := escapePrometheusLabel target.val.service
  let h := escapePrometheusLabel host
  let p := escapePrometheusLabel route.path
  let proto := escapePrometheusLabel (protocolName target.val.parsedProtocol)
  (read target.val).metrics.map fun (name, value) => targetLine name svc h p proto value

def targetsMetrics (t : Table W) : String :=
  String.join (targetsHeader ++ t.iterTargets.flatMap (targetLines read))

/-! ## What is read from it -/

/-- The metrics, each with what it means and its type. -/
def targetsFamilies : List (String × String × MetricType) :=
  [("sentirum_lb_target_requests_total", "Requests per target", .counter),
    ("sentirum_lb_target_errors_total", "Errors per target", .counter),
    ("sentirum_lb_target_latency_us_total", "Total latency per target", .counter),
    ("sentirum_lb_target_bytes_total", "Bytes per target", .counter),
    ("sentirum_lb_target_circuit_breaker_state",
      "Circuit breaker state (0=closed, 1=half-open, 2=open)", .gauge)]

def targetSamples (e : String × Route W × Arc (Target W)) : List Sample :=
  (read e.2.2.val).metrics.map fun metric =>
    { name := metric.1.toList
      labels := [("service".toList, e.2.2.val.service.toList), ("host".toList, e.1.toList),
        ("path".toList, e.2.1.path.toList),
        ("protocol".toList, (protocolName e.2.2.val.parsedProtocol).toList)]
      value := (toString metric.2).toList }

theorem toList_escapePrometheusLabel (s : String) :
    (escapePrometheusLabel s).toList = escape s.toList := by
  rw [escapePrometheusLabel, String.toList_ofList]
  rfl

theorem toList_targetLine (name svc h p proto : String) (value : ℕ) :
    (targetLine name (escapePrometheusLabel svc) (escapePrometheusLabel h)
      (escapePrometheusLabel p) (escapePrometheusLabel proto) value).toList =
      renderSample
        { name := name.toList
          labels := [("service".toList, svc.toList), ("host".toList, h.toList),
            ("path".toList, p.toList), ("protocol".toList, proto.toList)]
          value := (toString value).toList } ++ ['\n'] := by
  simp [targetLine, renderSample, renderLabels, toList_escapePrometheusLabel]

theorem isDigits_toString (n : ℕ) : isDigits (toString n).toList := by
  have hdigits : (toString n).toList = Nat.toDigits 10 n := by simp
  rw [hdigits, isDigits, Bool.and_eq_true]
  constructor
  · exact List.all_eq_true.mpr fun c hc => Nat.isDigit_of_mem_toDigits (by decide) (by decide) hc
  · simp [Nat.toDigits_ne_nil]

theorem valid_of_mem_targetSamples {e : String × Route W × Arc (Target W)} {s : Sample}
    (h : s ∈ targetSamples read e) : s.Valid ∧ '\n' ∉ s.value := by
  obtain ⟨metric, hmetric, rfl⟩ := List.mem_map.mp h
  have hname : ∀ metric ∈ (read e.2.2.val).metrics, isMetricName metric.1.toList := by
    have hnames : ∀ name ∈ targetsFamilies.map (·.1), isMetricName name.toList := by decide +kernel
    intro metric hmetric
    apply hnames
    simp only [TargetCounters.metrics, List.mem_cons, List.not_mem_nil, or_false] at hmetric
    rcases hmetric with rfl | rfl | rfl | rfl | rfl <;> simp [targetsFamilies]
  have hdigits := isDigits_toString metric.2
  refine ⟨⟨hname metric hmetric, by simp, ?_, ?_, isValue_of_isDigits hdigits⟩, fun hmem => ?_⟩
  · simp only [List.forall_mem_cons, List.not_mem_nil, false_implies, implies_true, and_true]
    decide +kernel
  · simp only [List.map_cons, List.map_nil]
    decide +kernel
  · have hdigit := List.all_eq_true.mp (Bool.and_eq_true_iff.mp hdigits).1 _ hmem
    cases hdigit

theorem toList_targetLines (e : String × Route W × Arc (Target W)) :
    (targetLines read e).flatMap String.toList =
      (targetSamples read e).flatMap fun s => renderSample s ++ ['\n'] := by
  unfold targetLines targetSamples
  dsimp only
  rw [List.flatMap_map, List.flatMap_map]
  congr 1
  funext metric
  exact toList_targetLine ..

def targetsHeaderLines : List (List Char) := targetsHeader.map fun line => line.toList.dropLast

theorem foldlM_targetsHeader :
    targetsHeaderLines.foldlM readLine {} =
      some {
        help := targetsFamilies.map fun family => (family.1.toList, family.2.1.toList)
        types := targetsFamilies.map fun family => (family.1.toList, family.2.2) } := by
  decide +kernel

/-- Whatever characters services, hosts and paths hold, the output is in the text format. It is read
back as the help and the type of five metrics, and five samples of each target, with the service,
the host, the path and the protocol as they are. -/
theorem parse_targetsMetrics (t : Table W) :
    parse (targetsMetrics read t).toList = some {
      help := targetsFamilies.map fun family => (family.1.toList, family.2.1.toList)
      types := targetsFamilies.map fun family => (family.1.toList, family.2.2)
      samples := t.iterTargets.flatMap (targetSamples read) } := by
  have hvalid : ∀ s ∈ t.iterTargets.flatMap (targetSamples read), s.Valid ∧ '\n' ∉ s.value := by
    intro s hs
    obtain ⟨e, -, hs⟩ := List.mem_flatMap.mp hs
    exact valid_of_mem_targetSamples read hs
  have hheader : targetsHeader.flatMap String.toList =
      targetsHeaderLines.flatMap (· ++ ['\n']) := by
    decide +kernel
  have hbody : (t.iterTargets.flatMap (targetLines read)).flatMap String.toList =
      ((t.iterTargets.flatMap (targetSamples read)).map renderSample).flatMap (· ++ ['\n']) := by
    rw [List.flatMap_map, List.flatMap_assoc, List.flatMap_assoc]
    simp only [toList_targetLines]
  have hlines : (targetsMetrics read t).toList =
      (targetsHeaderLines ++
        (t.iterTargets.flatMap (targetSamples read)).map renderSample).flatMap (· ++ ['\n']) := by
    rw [targetsMetrics, String.toList_join, List.flatMap_append, List.flatMap_append, hheader,
      hbody]
  have hheaderLine : ∀ line ∈ targetsHeaderLines, '\n' ∉ line := by
    decide +kernel
  have hnewline : ∀ line ∈ targetsHeaderLines ++
      (t.iterTargets.flatMap (targetSamples read)).map renderSample, '\n' ∉ line := by
    intro line hline
    rcases List.mem_append.mp hline with hline | hline
    · exact hheaderLine line hline
    · obtain ⟨s, hs, rfl⟩ := List.mem_map.mp hline
      exact newline_not_mem_renderSample (hvalid s hs).1 (hvalid s hs).2
  rw [hlines, parse_lines hnewline, List.foldlM_append, foldlM_targetsHeader]
  exact foldlM_renderSample (fun s hs => (hvalid s hs).1) _

end Metrics

end SentirumLb
