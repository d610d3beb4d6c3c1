import SiemEngine.Detection.Rules.Base

/-!
# Network and database rules

Port scanning, excessive outbound volume and suspicious SQL.
-/

namespace SiemEngine

namespace PortScan

def ruleId : String := "RULE-003"

def recommendedAction : String :=
  "Treat the source as reconnaissance. Block at the perimeter, check whether any probed " ++
  "service responded, and review exposure of the scanned ports."

def appliesTo (ev : SecurityEvent) : Bool :=
  ev.eventType ∈ [.connectionAttempt, .firewallDeny, .firewallAllow, .networkFlow] &&
    ev.sourceIp.isSome && ev.destinationPort.isSome

/-- A sample of the ports: the first thirty of the set in its own order, sorted. -/
def portsSample (py : Python) (values : List String) : List ℤ :=
  let ports := ((py.setOrder values).take 30).filter fun v => v ≠ "" && v.toList.all Char.isDigit
  (ports.filterMap (Text.pyInt py 10)).insertionSort (· ≤ ·)

def detection (py : Python) (p : Params) (ev : SecurityEvent) (ip : String)
    (res : WindowResult) : Detection :=
  let uniquePorts := res.uniqueValues.length
  let rate := Binary64.div uniquePorts (max res.spanSeconds 1)
  { ruleId
    kind := .rule
    title := "Port scan from " ++ ip
    description := ip ++ " contacted " ++ toString uniquePorts ++
      " unique destination ports in " ++ py.formatFixed 0 res.spanSeconds ++ "s (~" ++
      py.formatFixed 1 rate ++ " ports/s, threshold " ++ toString p.uniquePorts ++ "/" ++
      toString p.portScanWindow ++ "s)."
    severity := .high
    confidence := Binary64.roundTo 2
      (growing (49 / 50) (3 / 5) (3 / 200) (uniquePorts - p.uniquePorts))
    correlationKey := "srcip:" ++ ip ++ ":portscan"
    sourceIp := some ip
    affectedHost := some (ev.destinationText.getD ev.source.val)
    recommendedAction
    evidence := [{
      eventId := ev.eventId
      timestamp := ev.timestamp
      summary := ev.eventType.value ++ " -> " ++ shown ev.destinationText ++ ":" ++
        shownPort ev.destinationPort }]
    involvedHosts := ev.destinationText.toList
    eventCountHint := res.count
    metadata := [("unique_ports", .int uniquePorts),
      ("ports_sample", .arr ((portsSample py res.uniqueValues).map Json.int)),
      ("window_seconds", .int p.portScanWindow)] }

def evaluate (py : Python) (p : Params) (tick : Tick) (ev : SecurityEvent) (ws : Windows) :
    Evaluation :=
  match ev.sourceText with
  | none => (ws, .error .assertion)
  | some ip =>
    let out := ws.addAndMeasure tick "portscan" ip (shownPort ev.destinationPort) p.portScanWindow
      ev.epoch
    if (out.2.uniqueValues.length : ℤ) < p.uniquePorts then (out.1, .ok none)
    else (out.1, .ok (some (detection py p ev ip out.2)))

theorem evaluate_some {py : Python} {p : Params} {tick : Tick} {ev : SecurityEvent}
    {ws ws' : Windows} {d : Detection} (h : evaluate py p tick ev ws = (ws', .ok (some d))) :
    ∃ ip res, ev.sourceText = some ip ∧ p.uniquePorts ≤ res.uniqueValues.length ∧
      d = detection py p ev ip res := by
  unfold evaluate at h
  split at h
  · cases h
  · rename_i ip hip
    dsimp only at h
    split_ifs at h with hcount
    · cases h
    · cases h
      exact ⟨ip, _, hip, not_lt.mp hcount, rfl⟩

end PortScan

namespace DataExfiltration

def ruleId : String := "RULE-006"

def recommendedAction : String :=
  "Identify the destination and whether it is an approved endpoint. If not, isolate the " ++
  "host, capture the flow for analysis, and check for staging of archives on the source host."

def appliesTo (ev : SecurityEvent) : Bool :=
  ev.eventType ∈ [.networkFlow, .firewallAllow, .httpRequest] && 0 < ev.bytesOut.val &&
    ev.sourceIp.isSome

def humanBytes (py : Python) (n : ℤ) : String :=
  let rec scale (n : ℚ) : List String → String
    | [] => py.formatFixed 1 n ++ " PiB"
    | unit :: units =>
      if n < 1024 then py.formatFixed 1 n ++ " " ++ unit else scale (Binary64.div n 1024) units
  scale n ["B", "KiB", "MiB", "GiB", "TiB"]

def detection (py : Python) (p : Params) (ev : SecurityEvent) (ip : String) (total : ℤ) :
    Detection :=
  let ratio := Binary64.div total p.bytesThreshold
  { ruleId
    kind := .rule
    title := "High outbound volume from " ++ ip
    description := humanBytes py total ++ " transferred from " ++ ip ++ " to " ++
      ev.destinationText.getD "multiple destinations" ++ " within " ++
      toString p.exfilWindow ++ "s (threshold " ++ humanBytes py p.bytesThreshold ++ ")."
    severity := if 3 ≤ ratio then .high else .medium
    confidence := Binary64.roundTo 2 (min (Binary64.nearest (19 / 20))
      (Binary64.add (Binary64.nearest (1 / 2)) (Binary64.mul (Binary64.nearest (1 / 10)) ratio)))
    correlationKey := "srcip:" ++ ip ++ ":exfil"
    sourceIp := some ip
    affectedHost := some ev.source.val
    recommendedAction
    evidence := [{
      eventId := ev.eventId
      timestamp := ev.timestamp
      summary := humanBytes py ev.bytesOut.val ++ " -> " ++ shown ev.destinationText ++ ":" ++
        shownPort ev.destinationPort }]
    involvedHosts := ev.destinationText.toList
    metadata := [("window_bytes", .int total), ("window_seconds", .int p.exfilWindow),
      ("destination", (ev.destinationText.map Json.str).getD .null)] }

def evaluate (py : Python) (p : Params) (tick : Tick) (ev : SecurityEvent) (ws : Windows) :
    Evaluation :=
  match ev.sourceText with
  | none => (ws, .error .assertion)
  | some ip =>
    let entity := ip ++ "->" ++ ev.destinationText.getD "any"
    let out := ws.incrSum py tick "exfil" entity ev.bytesOut.val p.exfilWindow ev.epoch
    if out.2 < p.bytesThreshold then (out.1, .ok none)
    else if p.bytesThreshold = 0 then (out.1, .error .zeroDivision)
    else (out.1, .ok (some (detection py p ev ip out.2)))

theorem evaluate_some {py : Python} {p : Params} {tick : Tick} {ev : SecurityEvent}
    {ws ws' : Windows} {d : Detection} (h : evaluate py p tick ev ws = (ws', .ok (some d))) :
    ∃ ip total, ev.sourceText = some ip ∧ p.bytesThreshold ≤ total ∧
      d = detection py p ev ip total := by
  unfold evaluate at h
  split at h
  · cases h
  · rename_i ip hip
    dsimp only at h
    split_ifs at h with htotal
    · cases h
    · cases h
    · cases h
      exact ⟨ip, _, hip, not_lt.mp htotal, rfl⟩

end DataExfiltration

namespace SuspiciousSql

def ruleId : String := "RULE-005"

def recommendedAction : String :=
  "Correlate with the calling application and user. Review DB audit logs for the session, " ++
  "confirm parameterised queries in the code path, and check for unexpected data volume " ++
  "leaving the database."

def patterns : List (String × String × ℚ) :=
  [(r"(?i)\bunion\s+select\b", "UNION-based injection", 9 / 10),
    (r"(?i)\bor\s+1\s*=\s*1\b", "tautology injection (OR 1=1)", 17 / 20),
    (r"(?i)';\s*(drop|delete|update|insert)\b", "stacked-query injection", 9 / 10),
    (r"(?i)\b(information_schema|pg_catalog|sysobjects)\b", "schema enumeration", 3 / 5),
    (r"(?i)\b(load_file|into\s+outfile|pg_read_file|xp_cmdshell)\b", "file / command access",
      19 / 20),
    (r"(?i)\bselect\s+\*\s+from\s+\w*\b(users|credentials|customers|payment|passwords?)\b(?!.*[$:?]\d?)",
      "unparameterised bulk read of a sensitive table", 1 / 2),
    ("(?i)(['\"]\\s*)--\\s*$", "inline comment truncation of a string literal", 11 / 20),
    (r"(?i)\bsleep\s*\(\s*\d+\s*\)|\bwaitfor\s+delay\b", "time-based blind injection", 17 / 20)]

def appliesTo (ev : SecurityEvent) : Bool := ev.eventType = .dbQuery || ev.eventType = .dbError

def query (py : Python) (ev : SecurityEvent) : String :=
  let given := (ev.metadata.get? "query").getD .null
  if given.truthy then given.pyStr py else (ev.message.map Subtype.val).getD ""

def rowsReturned (py : Python) (ev : SecurityEvent) : Option ℤ :=
  let given := (ev.metadata.get? "rows_returned").getD .null
  if given.truthy then given.pyInt py else some 0

def hits (py : Python) (p : Params) (query : String) (rows : ℤ) : List (ℚ × String) :=
  (patterns.filter fun pat => py.search pat.1 query).map (fun pat => (pat.2.2, pat.2.1)) ++
    (if p.largeRowcount ≤ rows then
      [(11 / 20, "large result set (" ++ toString rows ++ " rows)")] else [])

def score (weights : List ℚ) : ℚ := weights.foldl (fun acc w => max acc (Binary64.nearest w)) 0

def detection (ev : SecurityEvent) (query : String) (rows : ℤ) (found : List (ℚ × String)) :
    Detection :=
  let labels := found.map Prod.snd
  let total := score (found.map Prod.fst)
  let actor := ev.user.or ev.sourceText
  { ruleId
    kind := .rule
    title := "Suspicious SQL from " ++ actor.getD "unknown"
    description := "Query on " ++ ev.source.val ++ " matched: " ++ Text.intercalate ", " labels ++
      ". Query (truncated): " ++ Text.take 200 query
    severity := if Binary64.nearest (17 / 20) ≤ total then .high else .medium
    confidence := Binary64.roundTo 2 (min (Binary64.nearest (24 / 25)) total)
    correlationKey := "db:" ++ ev.source.val ++ ":user:" ++ shown actor ++ ":sqli"
    sourceIp := ev.sourceText
    affectedHost := some ev.source.val
    recommendedAction
    evidence := [{
      eventId := ev.eventId
      timestamp := ev.timestamp
      summary := ev.user.getD "?" ++ " @ " ++ ev.source.val ++ ": " ++ Text.take 120 query }]
    involvedUsers := ev.user.toList
    involvedHosts := [ev.source.val]
    metadata := [("patterns", strings labels), ("rows_returned", .int rows)] }

def evaluate (py : Python) (p : Params) (_ : Tick) (ev : SecurityEvent) (ws : Windows) :
    Evaluation :=
  if query py ev = "" then (ws, .ok none)
  else match rowsReturned py ev with
    | none => (ws, .error .badValue)
    | some rows =>
      match hits py p (query py ev) rows with
      | [] => (ws, .ok none)
      | found => (ws, .ok (some (detection ev (query py ev) rows found)))

theorem evaluate_some {py : Python} {p : Params} {tick : Tick} {ev : SecurityEvent}
    {ws ws' : Windows} {d : Detection} (h : evaluate py p tick ev ws = (ws', .ok (some d))) :
    ∃ rows found, d = detection ev (query py ev) rows found := by
  unfold evaluate at h
  split_ifs at h
  · cases h
  · split at h
    · cases h
    · rename_i rows hrows
      split at h
      · cases h
      · cases h
        exact ⟨rows, _, rfl⟩

theorem score_nonneg (weights : List ℚ) : 0 ≤ score weights := by
  have hfold : ∀ acc : ℚ, 0 ≤ acc →
      0 ≤ weights.foldl (fun acc w => max acc (Binary64.nearest w)) acc := by
    induction weights with
    | nil => exact fun acc hacc => hacc
    | cons w weights ih => exact fun acc hacc => ih _ (hacc.trans (le_max_left acc _))
  exact hfold 0 le_rfl

end SuspiciousSql

end SiemEngine
