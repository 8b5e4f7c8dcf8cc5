import Kompli.ComplianceEngine.Indicators
import Kompli.Foundation.Split
import Kompli.Foundation.Streams

/-! The sockets that `ss` lists, and their addresses. -/
namespace Kompli.NetworkTools
open Foundation Streams

section InetPton

def dot : UInt8 := 0x2E
def colon : UInt8 := 0x3A

/-- The octets that are finished, and the digits of the last one, if there are any. -/
def inetPton4From : Bytes → Option Nat → Bytes → Option Bytes
  | octets, value, [] =>
    match value with
    | some n => if octets.length = 3 then some (octets ++ [UInt8.ofNat n]) else none
    | none => none
  | octets, value, c :: s =>
    if digit c then
      let n := value.getD 0 * 10 + (c - 0x30).toNat
      if value = some 0 ∨ 255 < n then none else inetPton4From octets (some n) s
    else
      match value with
      | some n => if c = dot ∧ octets.length < 3 then inetPton4From (octets ++ [UInt8.ofNat n]) none s else none
      | none => none

/-- `inet_pton(AF_INET, ...)`. -/
def inetPton4 (src : Bytes) : Option Bytes := inetPton4From [] none src

def hexDigitValue (c : UInt8) : Option Nat :=
  if digit c then some (c - 0x30).toNat
  else if 0x41 ≤ c ∧ c ≤ 0x46 then some (c - 0x41 + 10).toNat
  else if 0x61 ≤ c ∧ c ≤ 0x66 then some (c - 0x61 + 10).toNat
  else none

def groupBytes (n : Nat) : Bytes := [UInt8.ofNat (n / 256), UInt8.ofNat n]

/-- The zeros that `::` stands for are put in, at least one byte of them. -/
def expandColons (tmp : Bytes) : Option Nat → Option Bytes
  | none => if tmp.length = 16 then some tmp else none
  | some n => if tmp.length < 16 then some (tmp.take n ++ List.replicate (16 - tmp.length) 0 ++ tmp.drop n) else none

/-- `tmp` is what has been written, `colonp` where in it `::` was, `curtok` starts with the current group, and `val` is
the value of its digits, if it has any. -/
def inetPton6From : Bytes → Option Nat → Bytes → Option (Nat × Nat) → Bytes → Option Bytes
  | tmp, colonp, _, group, [] =>
    match group with
    | some (_, val) => if tmp.length ≤ 14 then expandColons (tmp ++ groupBytes val) colonp else none
    | none => expandColons tmp colonp
  | tmp, colonp, curtok, group, c :: src =>
    match hexDigitValue c with
    | some d =>
      let (digits, val) := group.getD (0, 0)
      if digits = 4 then none else inetPton6From tmp colonp curtok (some (digits + 1, val * 16 + d)) src
    | none =>
      if c = colon then
        match group with
        | none => if colonp.isSome then none else inetPton6From tmp (some tmp.length) src none src
        | some (_, val) =>
          if src = [] ∨ 14 < tmp.length then none else inetPton6From (tmp ++ groupBytes val) colonp src none src
      else if c = dot ∧ tmp.length ≤ 12 then
        match inetPton4 curtok with
        | some octets => expandColons (tmp ++ octets) colonp
        | none => none
      else none

/-- `inet_pton(AF_INET6, ...)`. -/
def inetPton6 : Bytes → Option Bytes
  | [] => none
  | c :: src =>
    if c = colon then if src.head? = some colon then inetPton6From [] none src none src else none
    else inetPton6From [] none (c :: src) none (c :: src)

end InetPton

example : inetPton4 (utf8 "127.0.0.1") = some [127, 0, 0, 1] := by decide
example : inetPton6 (utf8 "fe80::1") = some [0xFE, 0x80, 0, 0, 0, 0, 0, 0, 0, 0, 0, 0, 0, 0, 0, 1] := by decide

inductive SocketType where
  | stream
  | dgram
  deriving DecidableEq

/-- The family and the address in it. -/
inductive Address where
  | inet (ip4 : Bytes)
  | inet6 (ip6 : Bytes)
  deriving DecidableEq

structure OpenPort where
  type : SocketType
  port : UInt16
  address : Address
  interface : Bytes := []
  deriving DecidableEq

def OpenPort.isLocal (openPort : OpenPort) : Bool :=
  openPort.interface = utf8 "lo" ||
    match openPort.address with
    | .inet ip4 => ip4.head? = some 127
    | .inet6 ip6 => ip6 = List.replicate 15 0 ++ [1]

section GetOpenPorts

def percent : UInt8 := 0x25
def asterisk : UInt8 := 0x2A

def socketType (netid : Bytes) : Option SocketType :=
  if netid = utf8 "tcp" then some .stream else if netid = utf8 "udp" then some .dgram else none

/-- Without the brackets around it. -/
def stripBrackets (ip : Bytes) : Bytes :=
  if 2 ≤ ip.length ∧ ip.head? = some 0x5B ∧ ip.getLast? = some 0x5D then (ip.drop 1).dropLast else ip

/-- The address and the interface in front of the port. -/
def addressOf (ip : Bytes) : Option (Address × Bytes) :=
  let ip := stripBrackets (if ip = utf8 "*" then utf8 "0.0.0.0" else ip)
  let interface := (ip.dropWhile (· ≠ percent)).drop 1
  let ip := cString (ip.takeWhile (· ≠ percent))
  match inetPton4 ip, inetPton6 ip with
  | some ip4, _ => some (.inet ip4, interface)
  | none, some ip6 => some (.inet6 ip6, interface)
  | none, none => none

/-- A line that stands for a socket. Seven fields are asked for. -/
def openPortOf (line : Bytes) : Option OpenPort :=
  if line = [] ∨ line.head? = some newline ∨ line.head? = some 0x23 then none
  else do
    let (netid, line) ← word line
    let (_, line) ← word line
    let (_, line) ← word line
    let (_, line) ← word line
    let (localAddress, line) ← word line
    let (_, line) ← word line
    let _ ← word line
    let type ← socketType netid
    let (ip, port) ← cutLast colon localAddress
    let (port, _) ← signed 32 port
    let (address, interface) ← addressOf ip
    some { type, port := UInt16.ofInt port, address, interface }

def getOpenPorts (executeCommand : Bytes → Except Error Bytes) : Except Error (List OpenPort) :=
  match executeCommand (utf8 "ss -ptuln") with
  | .error e => .error { message := utf8 "Failed to execute ss command: " ++ e.message, code := e.code }
  | .ok output => .ok ((lines output).filterMap openPortOf)

end GetOpenPorts

end Kompli.NetworkTools
