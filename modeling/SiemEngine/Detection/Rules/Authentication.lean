import SiemEngine.Detection.Rules.Base

/-!
# Authentication rules

Brute force, password spraying, privilege escalation and authentication anomaly.
-/

namespace SiemEngine

namespace BruteForce

def ruleId : String := "RULE-001"

def recommendedAction : String :=
  "Investigate the source IP. If not attributable to a known scanner or user, block it at " ++
  "the firewall and force a credential reset for any account that authenticated successfully " ++
  "from it."

def appliesTo (ev : SecurityEvent) : Bool :=
  (ev.eventType = .authFailure || (ev.eventType = .authSuccess && ev.sourceIp.isSome)) &&
    ev.sourceIp.isSome

def detection (py : Python) (p : Params) (ev : SecurityEvent) (ip : String)
    (res : WindowResult) (breachedAccount : Bool) : Detection :=
  let confidence := growing (99 / 100) (3 / 5) (1 / 50) (res.count - p.maxFailures)
  let confidence := if breachedAccount then
      min (Binary64.nearest (99 / 100)) (Binary64.add confidence (Binary64.nearest (3 / 20)))
    else confidence
  { ruleId
    kind := .rule
    title := "Brute-force login activity from " ++ ip
    description := toString res.count ++ " failed authentication attempts from " ++ ip ++
      " within " ++ py.formatFixed 0 res.spanSeconds ++ "s (threshold " ++
      toString p.maxFailures ++ "/" ++ toString p.bruteForceWindow ++ "s), targeting " ++
      toString res.uniqueValues.length ++ " distinct account(s)." ++
      (if breachedAccount then " A subsequent successful login was observed." else "")
    severity := if breachedAccount then .critical else .high
    confidence := Binary64.roundTo 2 confidence
    correlationKey := "srcip:" ++ ip
    sourceIp := some ip
    affectedHost := some ev.source.val
    recommendedAction
    evidence := [{
      eventId := ev.eventId
      timestamp := ev.timestamp
      summary := ev.eventType.value ++ " user=" ++ shown ev.user ++ " host=" ++ ev.source.val }]
    involvedUsers := sorted (accounts res.uniqueValues)
    involvedHosts := [ev.source.val]
    eventCountHint := res.count
    metadata := [("window_seconds", .int p.bruteForceWindow),
      ("span_seconds", .float (Binary64.roundTo 1 res.spanSeconds)),
      ("account_breached", .bool breachedAccount),
      ("status", (ev.status.map fun s => Json.str s.value).getD .null)] }

/-- A success is measured without being added. -/
def observe (p : Params) (tick : Tick) (ev : SecurityEvent) (ip : String) (ws : Windows) :
    Windows × WindowResult :=
  if ev.eventType = .authSuccess then ws.measure tick "bruteforce" ip p.bruteForceWindow
  else ws.addAndMeasure tick "bruteforce" ip (ev.user.getD "-") p.bruteForceWindow ev.epoch

def evaluate (py : Python) (p : Params) (tick : Tick) (ev : SecurityEvent) (ws : Windows) :
    Evaluation :=
  match ev.sourceText with
  | none => (ws, .error .assertion)
  | some ip =>
    let out := observe p tick ev ip ws
    if (out.2.count : ℤ) < p.maxFailures then (out.1, .ok none)
    else (out.1, .ok (some (detection py p ev ip out.2 (ev.eventType = .authSuccess))))

theorem evaluate_some {py : Python} {p : Params} {tick : Tick} {ev : SecurityEvent}
    {ws ws' : Windows} {d : Detection} (h : evaluate py p tick ev ws = (ws', .ok (some d))) :
    ∃ ip res breachedAccount, ev.sourceText = some ip ∧ p.maxFailures ≤ res.count ∧
      d = detection py p ev ip res breachedAccount := by
  unfold evaluate at h
  split at h
  · cases h
  · rename_i ip hip
    dsimp only at h
    split_ifs at h with hcount
    · cases h
    · cases h
      exact ⟨ip, _, _, hip, not_lt.mp hcount, rfl⟩

end BruteForce

namespace PasswordSpray

def ruleId : String := "RULE-002"

def recommendedAction : String :=
  "Confirm whether the source IP is a legitimate gateway (VPN/NAT). If not, block it and " ++
  "review accounts targeted for weak-password exposure; enable MFA where missing."

def appliesTo (ev : SecurityEvent) : Bool :=
  ev.eventType = .authFailure && ev.sourceIp.isSome && ev.username.isSome

def detection (py : Python) (p : Params) (ev : SecurityEvent) (ip : String)
    (res : WindowResult) : Detection :=
  let users := accounts res.uniqueValues
  let distinct := users.length
  { ruleId
    kind := .rule
    title := "Password spraying from " ++ ip
    description := ip ++ " attempted authentication against " ++ toString distinct ++
      " distinct usernames in " ++ py.formatFixed 0 res.spanSeconds ++ "s (" ++
      toString res.count ++
      " attempts total), a low-and-slow pattern consistent with password spraying."
    severity := .high
    confidence := Binary64.roundTo 2
      (growing (97 / 100) (11 / 20) (3 / 100) (distinct - p.uniqueUsers))
    correlationKey := "srcip:" ++ ip ++ ":spray"
    sourceIp := some ip
    affectedHost := some ev.source.val
    recommendedAction
    evidence := [{
      eventId := ev.eventId
      timestamp := ev.timestamp
      summary := "auth failure user=" ++ shown ev.user ++ " host=" ++ ev.source.val }]
    involvedUsers := (sorted users).take 25
    involvedHosts := [ev.source.val]
    eventCountHint := res.count
    metadata := [("distinct_users", .int distinct), ("window_seconds", .int p.sprayWindow)] }

def evaluate (py : Python) (p : Params) (tick : Tick) (ev : SecurityEvent) (ws : Windows) :
    Evaluation :=
  match ev.sourceText with
  | none => (ws, .error .assertion)
  | some ip =>
    let out := ws.addAndMeasure tick "spray" ip (py.lower (ev.user.getD "-")) p.sprayWindow ev.epoch
    if ((accounts out.2.uniqueValues).length : ℤ) < p.uniqueUsers then (out.1, .ok none)
    else (out.1, .ok (some (detection py p ev ip out.2)))

theorem evaluate_some {py : Python} {p : Params} {tick : Tick} {ev : SecurityEvent}
    {ws ws' : Windows} {d : Detection} (h : evaluate py p tick ev ws = (ws', .ok (some d))) :
    ∃ ip res, ev.sourceText = some ip ∧ p.uniqueUsers ≤ (accounts res.uniqueValues).length ∧
      d = detection py p ev ip res := by
  unfold evaluate at h
  split at h
  · cases h
  · rename_i ip hip
    dsimp only at h
    split_ifs at h with hcount
    · cases h
    · cases h
      exact ⟨ip, _, hip, not_lt.mp hcount, rfl⟩

end PasswordSpray

namespace PrivilegeEscalation

def ruleId : String := "RULE-004"

def recommendedAction : String :=
  "Verify the change with the account owner and change-management records. If unsanctioned, " ++
  "revoke the elevated access, preserve the host for forensics, and rotate credentials."

def suspiciousActions : List String :=
  ["sudo", "su ", "usermod", "useradd", "passwd", "chmod 777", "setuid", "visudo", "pkexec",
    "runas", "net localgroup administrators"]

def suspicious (text : String) : Bool := suspiciousActions.any fun s => s.toList <:+: text.toList

def offHours (t : Time) : Bool := 22 ≤ Datetime.hour t || Datetime.hour t < 6

def appliesTo (py : Python) (ev : SecurityEvent) : Bool :=
  if ev.eventType = .privilegeEscalation || ev.eventType = .configChange then true
  else if ev.sourceType = .webServer || ev.sourceType = .firewall || ev.sourceType = .dns then
    false
  else if ev.username.isNone then false
  else suspicious (py.lower ((ev.action.map Subtype.val).getD "" ++ " " ++
    (ev.message.map Subtype.val).getD ""))

def action (py : Python) (ev : SecurityEvent) : String :=
  py.lower (((ev.action.map Subtype.val).or (ev.message.map Subtype.val)).getD "")

def actorRole (py : Python) (ev : SecurityEvent) : String :=
  py.lower (((ev.metadata.get? "user_role").getD (.str "")).pyStr py)

def reasons (py : Python) (p : Params) (ev : SecurityEvent) : List (ℚ × String) :=
  let roles := p.privilegedRoles.map py.lower
  let actorIsPrivileged := actorRole py ev ∈ roles || py.lower (ev.user.getD "") ∈ roles
  (if actorIsPrivileged then [] else
    [(7 / 20, "actor '" ++ shown ev.user ++ "' is not a known privileged account")]) ++
  (if offHours ev.timestamp then [(3 / 20, "action occurred outside business hours")] else []) ++
  (if ev.eventType = .privilegeEscalation then
    [(1 / 5, "host reported an explicit privilege-escalation event")] else [])

def failed (ev : SecurityEvent) : List (ℚ × String) :=
  if ev.status = some .failure then [(1 / 20, "the escalation attempt failed")] else []

def score (weights : List ℚ) : ℚ :=
  weights.foldl (fun acc w => Binary64.add acc (Binary64.nearest w)) (Binary64.nearest (2 / 5))

def detection (py : Python) (ev : SecurityEvent) (why : List (ℚ × String)) : Detection :=
  let shownAction := ev.action.map Subtype.val
  let texts := why.map Prod.snd
  { ruleId
    kind := .rule
    title := "Privilege escalation by " ++ ev.user.getD "unknown" ++ " on " ++ ev.source.val
    description := "User '" ++ shown ev.user ++ "' performed administrative action '" ++
      shownAction.getD (Text.take 120 (action py ev)) ++ "' on " ++ ev.source.val ++ ". " ++
      py.capitalize (Text.intercalate "; " texts) ++ "."
    severity := .high
    confidence := Binary64.roundTo 2
      (min (Binary64.nearest (19 / 20)) (score (why.map Prod.fst)))
    correlationKey := "host:" ++ ev.source.val ++ ":user:" ++ shown ev.user ++ ":privesc"
    sourceIp := ev.sourceText
    affectedHost := some ev.source.val
    recommendedAction
    evidence := [{
      eventId := ev.eventId
      timestamp := ev.timestamp
      summary := shown ev.user ++ "@" ++ ev.source.val ++ ": " ++
        shownAction.getD (Text.take 80 (action py ev)) }]
    involvedUsers := ev.user.toList
    involvedHosts := [ev.source.val]
    metadata := [("reasons", strings texts),
      ("actor_role", .str (if actorRole py ev = "" then "unknown" else actorRole py ev))] }

def evaluate (py : Python) (p : Params) (_ : Tick) (ev : SecurityEvent) (ws : Windows) :
    Evaluation :=
  if ev.eventType ≠ .privilegeEscalation ∧ ¬ suspicious (action py ev) then (ws, .ok none)
  else if reasons py p ev = [] then (ws, .ok none)
  else (ws, .ok (some (detection py ev (reasons py p ev ++ failed ev))))

theorem evaluate_some {py : Python} {p : Params} {tick : Tick} {ev : SecurityEvent}
    {ws ws' : Windows} {d : Detection} (h : evaluate py p tick ev ws = (ws', .ok (some d))) :
    d = detection py ev (reasons py p ev ++ failed ev) := by
  unfold evaluate at h
  split_ifs at h
  · cases h
  · cases h
  · cases h
    rfl

theorem weight_nonneg {py : Python} {p : Params} {ev : SecurityEvent} {why : ℚ × String}
    (h : why ∈ reasons py p ev ++ failed ev) : 0 ≤ why.1 := by
  unfold reasons failed at h
  dsimp only at h
  simp only [List.mem_append, List.mem_ite_nil_left, List.mem_ite_nil_right,
    List.mem_singleton] at h
  rcases h with (((⟨-, rfl⟩ | ⟨-, rfl⟩) | ⟨-, rfl⟩) | ⟨-, rfl⟩) <;> norm_num

theorem score_nonneg {weights : List ℚ} (h : ∀ w ∈ weights, 0 ≤ w) : 0 ≤ score weights := by
  have hfold : ∀ acc : ℚ, 0 ≤ acc →
      0 ≤ weights.foldl (fun acc w => Binary64.add acc (Binary64.nearest w)) acc := by
    induction weights with
    | nil => exact fun acc hacc => hacc
    | cons w weights ih =>
      intro acc hacc
      have hw : 0 ≤ Binary64.nearest w := Binary64.nearest_nonneg (h w List.mem_cons_self)
      exact ih (fun v hv => h v (List.mem_cons_of_mem w hv)) _
        (Binary64.nearest_nonneg (add_nonneg hacc hw))
  exact hfold _ (Binary64.nearest_nonneg (by norm_num))

end PrivilegeEscalation

namespace AuthAnomaly

def ruleId : String := "RULE-007"

def recommendedAction : String :=
  "Contact the account owner to confirm the sessions. If unrecognised, invalidate active " ++
  "sessions, reset credentials, and review what the account accessed during the window."

def appliesTo (ev : SecurityEvent) : Bool :=
  (ev.eventType = .authSuccess || ev.eventType = .authFailure) && ev.username.isSome &&
    ev.sourceIp.isSome

def detection (py : Python) (p : Params) (ev : SecurityEvent) (user ip : String)
    (res : WindowResult) : Detection :=
  let distinct := res.uniqueValues.length
  { ruleId
    kind := .rule
    title := "Unusual authentication pattern for '" ++ user ++ "'"
    description := "Account '" ++ user ++ "' authenticated *successfully* from " ++
      toString distinct ++ " distinct source IPs within " ++ py.formatFixed 0 res.spanSeconds ++
      "s (latest from " ++ ip ++
      ") — possible session hijack or shared/compromised credentials."
    severity := if p.distinctIps + 2 ≤ distinct then .high else .medium
    confidence := Binary64.roundTo 2
      (growing (23 / 25) (1 / 2) (1 / 10) (distinct - p.distinctIps))
    correlationKey := "user:" ++ py.lower user ++ ":authgeo"
    sourceIp := some ip
    affectedHost := some ev.source.val
    recommendedAction
    evidence := [{
      eventId := ev.eventId
      timestamp := ev.timestamp
      summary := user ++ " login from " ++ ip ++ " (" ++
        shown (ev.status.map EventStatus.value) ++ ")" }]
    involvedUsers := [user]
    involvedHosts := [ev.source.val]
    metadata := [("distinct_source_ips", strings ((sorted res.uniqueValues).take 20))] }

def evaluate (py : Python) (p : Params) (tick : Tick) (ev : SecurityEvent) (ws : Windows) :
    Evaluation :=
  match ev.user, ev.sourceText with
  | some user, some ip =>
    let bucket := if ev.status = some .success then "authgeo_ok" else "authgeo_fail"
    let out := ws.addAndMeasure tick bucket (py.lower user) ip p.authGeoWindow ev.epoch
    if ev.status ≠ some .success ∨ (out.2.uniqueValues.length : ℤ) < p.distinctIps then
      (out.1, .ok none)
    else (out.1, .ok (some (detection py p ev user ip out.2)))
  | _, _ => (ws, .error .assertion)

theorem evaluate_some {py : Python} {p : Params} {tick : Tick} {ev : SecurityEvent}
    {ws ws' : Windows} {d : Detection} (h : evaluate py p tick ev ws = (ws', .ok (some d))) :
    ∃ user ip res, ev.user = some user ∧ ev.sourceText = some ip ∧
      p.distinctIps ≤ res.uniqueValues.length ∧ d = detection py p ev user ip res := by
  unfold evaluate at h
  split at h
  · rename_i user ip huser hip
    dsimp only at h
    by_cases hquiet : ev.status ≠ some .success ∨ ((ws.addAndMeasure tick
        (if ev.status = some .success then "authgeo_ok" else "authgeo_fail") (py.lower user) ip
        p.authGeoWindow ev.epoch).2.uniqueValues.length : ℤ) < p.distinctIps
    · rw [if_pos hquiet] at h
      cases h
    · rw [if_neg hquiet] at h
      cases h
      exact ⟨user, ip, _, huser, hip, not_lt.mp (not_or.mp hquiet).2, rfl⟩
  · cases h

end AuthAnomaly

end SiemEngine
