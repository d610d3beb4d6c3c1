import Mathlib.Data.List.Basic

/-!
# Shared enumerations for events and alerts

Each `StrEnum` of the source is an inductive type with its string values in `value`;
`ofValue?` is the lookup `Enum(text)`, which raises `ValueError` on other texts.
-/

namespace SiemEngine

inductive Severity
  | info | low | medium | high | critical
  deriving DecidableEq, Repr

namespace Severity

def value : Severity → String
  | .info => "info" | .low => "low" | .medium => "medium" | .high => "high"
  | .critical => "critical"

def all : List Severity := [.info, .low, .medium, .high, .critical]

def rank : Severity → ℕ
  | .info => 0 | .low => 1 | .medium => 2 | .high => 3 | .critical => 4

end Severity

inductive SourceType
  | linuxServer | webServer | firewall | database | application | identity | dns | scheduler
  | unknown
  deriving DecidableEq, Repr

namespace SourceType

def value : SourceType → String
  | .linuxServer => "linux_server" | .webServer => "web_server" | .firewall => "firewall"
  | .database => "database" | .application => "application" | .identity => "identity"
  | .dns => "dns" | .scheduler => "scheduler" | .unknown => "unknown"

def all : List SourceType :=
  [.linuxServer, .webServer, .firewall, .database, .application, .identity, .dns, .scheduler,
    .unknown]

end SourceType

inductive EventType
  | authSuccess | authFailure | logout | privilegeEscalation
  | firewallAllow | firewallDeny | connectionAttempt | dnsQuery | networkFlow
  | httpRequest
  | dbQuery | dbError
  | appEvent | scheduledJob | configChange | unknown
  deriving DecidableEq, Repr

namespace EventType

def value : EventType → String
  | .authSuccess => "authentication_success" | .authFailure => "authentication_failure"
  | .logout => "logout" | .privilegeEscalation => "privilege_escalation"
  | .firewallAllow => "firewall_allow" | .firewallDeny => "firewall_deny"
  | .connectionAttempt => "connection_attempt" | .dnsQuery => "dns_query"
  | .networkFlow => "network_flow" | .httpRequest => "http_request"
  | .dbQuery => "db_query" | .dbError => "db_error"
  | .appEvent => "application_event" | .scheduledJob => "scheduled_job"
  | .configChange => "config_change" | .unknown => "unknown"

def all : List EventType :=
  [.authSuccess, .authFailure, .logout, .privilegeEscalation, .firewallAllow, .firewallDeny,
    .connectionAttempt, .dnsQuery, .networkFlow, .httpRequest, .dbQuery, .dbError, .appEvent,
    .scheduledJob, .configChange, .unknown]

end EventType

inductive EventStatus
  | success | failure | allowed | denied | blocked | error | info
  deriving DecidableEq, Repr

namespace EventStatus

def value : EventStatus → String
  | .success => "success" | .failure => "failure" | .allowed => "allowed"
  | .denied => "denied" | .blocked => "blocked" | .error => "error" | .info => "info"

def all : List EventStatus := [.success, .failure, .allowed, .denied, .blocked, .error, .info]

end EventStatus

inductive AlertStatus
  | «open» | acknowledged | investigating | resolved | falsePositive
  deriving DecidableEq, Repr

namespace AlertStatus

def value : AlertStatus → String
  | .open => "open" | .acknowledged => "acknowledged" | .investigating => "investigating"
  | .resolved => "resolved" | .falsePositive => "false_positive"

def isActive (s : AlertStatus) : Bool := s ∈ [.open, .acknowledged, .investigating]

end AlertStatus

inductive DetectionKind
  | rule | anomaly | ml
  deriving DecidableEq, Repr

/-- `Enum(text)` for an enumeration given by its members and their values. -/
def ofValue? {ε : Type*} (all : List ε) (value : ε → String) (text : String) : Option ε :=
  all.find? fun e => value e = text

end SiemEngine
