import Kompli.ComplianceEngine.NetworkTools
import Kompli.Foundation.Substring

/-! Whether the rules of a firewall name the ports that are open. -/
namespace Kompli.FirewallOpenPorts
open Foundation Streams NetworkTools

def nonCompliant (message : Bytes) : Except Error Indicator := .ok { message, status := .nonCompliant }
def compliant (message : Bytes) : Except Error Indicator := .ok { message, status := .compliant }

/-- `std::to_string` of a port. -/
def portText (port : UInt16) : Bytes := printUnsigned port.toNat

section Iptables

/-- What is searched for in the rules. -/
def dpt (port : UInt16) : Bytes := utf8 "dpt:" ++ portText port

/-- The two audits differ in the command and in the family; `openPorts` is what `GetOpenPorts` returns. -/
def auditTables (isFamily : Address → Bool) (command : Bytes) (openPorts : Except Error (List OpenPort))
    (executeCommand : Bytes → Except Error Bytes) : Except Error Indicator :=
  match openPorts with
  | .error e => .error e
  | .ok openPorts =>
    match executeCommand (command ++ utf8 " -L INPUT -v -n") with
    | .error e => nonCompliant (utf8 "Failed to execute " ++ command ++ utf8 " command: " ++ e.message)
    | .ok iptResult =>
      match openPorts.find? fun openPort =>
          ! openPort.isLocal && isFamily openPort.address && (cutAt (dpt openPort.port) iptResult).isNone with
      | some openPort =>
        nonCompliant (utf8 "Port " ++ portText openPort.port ++ utf8 " is open but not listed in iptables")
      | none => compliant (utf8 "All open ports are listed in iptables")

def isInet : Address → Bool
  | .inet _ => true
  | .inet6 _ => false

def isInet6 : Address → Bool
  | .inet _ => false
  | .inet6 _ => true

def auditIptablesOpenPorts := auditTables isInet (utf8 "iptables")
def auditIp6tablesOpenPorts := auditTables isInet6 (utf8 "ip6tables")

end Iptables

section Ufw

def statusPrefix : Bytes := utf8 "Status: "

/-- The lines up to the separator: whether the firewall is active, as the last status says, and what follows the
separator. -/
def readStatus : Option Bool → List Bytes → Except Bytes (Option Bool × Option (List Bytes))
  | isActive, [] => .ok (isActive, none)
  | isActive, line :: rest =>
    if statusPrefix <+: line then
      if utf8 "active" <+: line.drop statusPrefix.length then readStatus (some true) rest
      else if utf8 "inactive" <+: line.drop statusPrefix.length then readStatus (some false) rest
      else .error (utf8 "Invalid output from ufw command, unrecognized status section '" ++ line ++ utf8 "'")
    else if line = utf8 "--" then .ok (isActive, some rest)
    else readStatus isActive rest

/-- The rules, or what is wrong with the output. -/
def ruleLines (output : Bytes) : Except Bytes (List Bytes) :=
  match readStatus none (lines output) with
  | .error message => .error message
  | .ok (none, _) => .error (utf8 "Invalid output from ufw command, missing status section")
  | .ok (some false, _) => .error (utf8 "UFW is inactive")
  | .ok (some true, none) => .error (utf8 "Invalid output from ufw command, expected separator '--' not found")
  | .ok (some true, some rest) => .ok rest

/-- A field that starts with a port. -/
def fieldPort (field : Bytes) : Option Int :=
  match signed 32 field with
  | none => none
  | some (port, rest) => if rest = [] ∨ rest.head? = some 0x2F ∨ rest.head? = some 0x20 then some port else none

/-- The port of a rule: its first field, or the second one where the first is a destination. -/
def rulePort (line : Bytes) : Option Int :=
  if line = [] ∨ line.head? = some newline ∨ line.head? = some 0x23 then none
  else do
    let (first, rest) ← word line
    let (second, _) ← word rest
    let port ← (fieldPort first).or (fieldPort second)
    if port < 1 ∨ 65535 < port then none else some port

def v6 : Bytes := utf8 "(v6)"

/-- `length - 4` of a `size_t`, as a position: it is `npos` for a length of 3. -/
def lastPosition (length : Nat) : Option Nat :=
  if 4 ≤ length then some (length - 4) else if length = 3 then none else some (2 ^ 64 + length - 4)

/-- `line.find("(v6)") == line.length() - 4`. -/
def isV6 (line : Bytes) : Bool := (cutAt v6 line).map (fun (before, _) => before.length) = lastPosition line.length

/-- The two sets of ports, as they are filled. -/
structure RulePorts where
  v4ports : List Int16 := []
  v6ports : List Int16 := []

def addRule (ports : RulePorts) (line : Bytes) : RulePorts :=
  match rulePort line with
  | none => ports
  | some port =>
    if isV6 line then { ports with v6ports := Int16.ofInt port :: ports.v6ports }
    else { ports with v4ports := Int16.ofInt port :: ports.v4ports }

/-- What is said about a port that no rule names. -/
def unlisted (ports : RulePorts) (openPort : OpenPort) : Option Bytes :=
  if openPort.isLocal then none
  else
    match openPort.address with
    | .inet _ =>
      if openPort.port.toInt16 ∈ ports.v4ports then none
      else some (utf8 "Port " ++ portText openPort.port ++ utf8 " is open but not listed in ufw for ipv4")
    | .inet6 _ =>
      if openPort.port.toInt16 ∈ ports.v6ports then none
      else some (utf8 "Port " ++ portText openPort.port ++ utf8 " is open but not listed in ufw for ipv6")

def auditUfwOpenPorts (openPorts : Except Error (List OpenPort)) (executeCommand : Bytes → Except Error Bytes) :
    Except Error Indicator :=
  match openPorts with
  | .error e => .error e
  | .ok openPorts =>
    match executeCommand (utf8 "ufw status verbose") with
    | .error e => nonCompliant (utf8 "Failed to execute ufw command: " ++ e.message)
    | .ok output =>
      match ruleLines output with
      | .error message => nonCompliant message
      | .ok rules =>
        match openPorts.findSome? (unlisted (rules.foldl addRule {})) with
        | some message => nonCompliant message
        | none => compliant (utf8 "All open ports are listed in ufw")

end Ufw

end Kompli.FirewallOpenPorts
