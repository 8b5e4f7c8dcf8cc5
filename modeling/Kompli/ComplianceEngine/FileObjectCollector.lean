import Kompli.ComplianceEngine.VariableResolver
import Kompli.Foundation.Scope
import Kompli.Parsers.NameserverMatches

/-! The nameservers of a file that is read whole or not at all. -/
namespace Kompli.FileObjectCollector
open Foundation Foundation.Loop VariableResolution
open NameserverSelection (E2BIG EOVERFLOW Document Limits findNameserverCaptures findNameserverCaptures_isSome)

def EINTR : Int := 4
def EIO : Int := 5
def EAGAIN : Int := 11
def ELOOP : Int := 40

def O_RDONLY : Nat := 0
def O_NOFOLLOW : Nat := 0o400000
def O_CLOEXEC : Nat := 0o2000000
def O_PATH : Nat := 0o10000000

inductive RootSymlinkPolicy where
  | followRegular
  | reject
  | other (value : Int)

structure FileCollectionPolicy where
  rootSymlinks : RootSymlinkPolicy := .followRegular
  contentBytes : UInt64 := 1024 * 1024
  occurrences : UInt64 := 16384
  captureBytes : UInt64 := 65536
  capturedBytes : UInt64 := 1024 * 1024
  values : UInt64 := 65536
  readRetries : UInt64 := 128

/-- The fields of a `struct stat` that are looked at. -/
structure FileMetadata where
  device : Nat
  inode : Nat
  mode : Nat
  size : Int
  modified : Int × Int
  changed : Int × Int
  deriving DecidableEq

namespace FileMetadata

def isRegular (metadata : FileMetadata) : Bool := metadata.mode &&& 0o170000 = 0o100000
def isLink (metadata : FileMetadata) : Bool := metadata.mode &&& 0o170000 = 0o120000

end FileMetadata

def sameIdentity (left right : FileMetadata) : Bool :=
  left.device = right.device && left.inode = right.inode && right.isRegular

def sameObservedFile (left right : FileMetadata) : Bool :=
  sameIdentity left right && left.size = right.size && left.modified = right.modified && left.changed = right.changed

/-- What `read` returns, and the buffer as it is then. -/
structure ReadResult where
  count : Int64
  buffer : Vector UInt8 8192

inductive Thrown where
  | badAlloc
  | lengthError
  | exception
  | unknown
  deriving DecidableEq

/-- `errno` is as the call leaves it. -/
inductive Outcome (α : Type) where
  | returned (value : α) (errno : Int)
  | thrown (what : Thrown)

/-- What is done, in order: a call with its outcome, or what is kept of the file from then on. -/
inductive Event where
  | opens (path : Bytes) (flags : Nat) (outcome : Outcome Int)
  | stats (descriptor : Int) (outcome : Outcome (Int × FileMetadata))
  | reads (descriptor : Int) (request : UInt64) (outcome : Outcome ReadResult)
  | closes (descriptor : Int) (outcome : Outcome Int)
  | retains (content : Bytes)

/-- The outcome of a call may depend on all that was done before it. -/
structure ContextInterface where
  openExistingFile : List Event → Bytes → Nat → Outcome Int
  statFileDescriptor : List Event → Int → Outcome (Int × FileMetadata)
  readFileDescriptor : List Event → Int → UInt64 → Outcome ReadResult
  closeFileDescriptor : List Event → Int → Outcome Int

inductive Failure where
  | error (error : Error)
  | thrown (what : Thrown)

abbrev Collect := EStateM Failure (List Event)

variable {α : Type}

def fail {σ : Type} (message : String) (code : Int) : EStateM Failure σ α :=
  throw (.error { message := utf8 message, code })

/-- `errno == 0 ? EIO : errno`. -/
def codeOf (errno : Int) : Int := if errno = 0 then EIO else errno

def record (event : Event) : Collect Unit := modify (· ++ [event])

def call (outcome : List Event → Outcome α) (event : Outcome α → Event) : Collect (α × Int) := do
  let outcome := outcome (← get)
  record (event outcome)
  match outcome with
  | .returned value errno => pure (value, errno)
  | .thrown what => throw (.thrown what)

section Context

variable (context : ContextInterface)

def openExistingFile (path : Bytes) (flags : Nat) (message : String) : Collect Int := do
  let (descriptor, errno) ← call (context.openExistingFile · path flags) (.opens path flags)
  if descriptor < 0 then fail message (codeOf errno) else pure descriptor

def statFileDescriptor (descriptor : Int) (message : String) : Collect FileMetadata := do
  let ((status, metadata), errno) ← call (context.statFileDescriptor · descriptor) (.stats descriptor)
  if status ≠ 0 then fail message (codeOf errno) else pure metadata

def readFileDescriptor (descriptor : Int) (request : UInt64) : Collect (ReadResult × Int) :=
  call (context.readFileDescriptor · descriptor request) (.reads descriptor request)

namespace Descriptor

/-- What is left of an object that holds the descriptor. -/
def destroy (descriptor : Int) (events : List Event) : List Event :=
  if 0 ≤ descriptor then events ++ [.closes descriptor (context.closeFileDescriptor events descriptor)] else events

/-- `CloseFileDescriptor` within `Close`. -/
def finalize (descriptor : Int) : Collect Unit := do
  let outcome := context.closeFileDescriptor (← get) descriptor
  record (.closes descriptor outcome)
  match outcome with
  | .returned status errno =>
    if status ≠ 0 then fail "Failed to finalize exact file descriptor" (codeOf errno) else pure ()
  | .thrown .unknown => fail "Exact file close operation threw an unknown exception" EIO
  | .thrown _ => fail "Exact file close operation threw an exception" EIO

/-- The descriptor is given up before it is closed. -/
def close {σ : Type} (finalize : Int → EStateM Failure σ Unit) : EStateM Failure (Int × σ) Unit := do
  let descriptor := (← get).1
  if descriptor < 0 then pure ()
  else
    modify fun s => (-1, s.2)
    aside (finalize descriptor)

end Descriptor

end Context

/-- What is read so far, within the limits of the policy. -/
structure Reading (policy : FileCollectionPolicy) where
  content : Bytes
  retries : UInt64
  within : content.length ≤ policy.contentBytes.toNat
  retried : retries ≤ policy.readRetries

section Read

variable {policy : FileCollectionPolicy}

namespace Reading

def start (policy : FileCollectionPolicy) : Reading policy where
  content := []
  retries := 0
  within := Nat.zero_le _
  retried := UInt64.zero_le

def remaining (state : Reading policy) : UInt64 := policy.contentBytes - UInt64.ofNat state.content.length

/-- One byte more is asked for where nothing remains. -/
def request (state : Reading policy) : UInt64 :=
  min 8192 (state.remaining + if state.remaining = 0 then 1 else 0)

/-- How many more reads can be without an end. -/
def budget (state : Reading policy) : Nat :=
  (policy.contentBytes.toNat - state.content.length) + (policy.readRetries.toNat - state.retries.toNat)

theorem remaining_toNat (state : Reading policy) :
    state.remaining.toNat = policy.contentBytes.toNat - state.content.length := by
  have hlength : (UInt64.ofNat state.content.length).toNat = state.content.length :=
    UInt64.toNat_ofNat_of_lt' (state.within.trans_lt policy.contentBytes.toNat_lt)
  rw [remaining, UInt64.toNat_sub_of_le _ _ (by rw [UInt64.le_iff_toNat_le, hlength]; exact state.within), hlength]

theorem within_append {state : Reading policy} {bytes : UInt64} (buffer : Vector UInt8 8192)
    (h : bytes ≤ state.remaining) :
    (state.content ++ buffer.toList.take bytes.toNat).length ≤ policy.contentBytes.toNat := by
  have hbytes := UInt64.le_iff_toNat_le.mp h
  have htake := List.length_take_le bytes.toNat buffer.toList
  have hwithin := state.within
  rw [remaining_toNat] at hbytes
  rw [List.length_append]
  omega

theorem retried_succ {state : Reading policy} (h : state.retries < policy.readRetries) :
    state.retries + 1 ≤ policy.readRetries := by
  have hlt := UInt64.lt_iff_toNat_lt.mp h
  have hbound := policy.readRetries.toNat_lt
  rw [UInt64.le_iff_toNat_le, UInt64.toNat_add, UInt64.toNat_one, Nat.mod_eq_of_lt (by omega)]
  omega

end Reading

def readTurn (state : Reading policy) (result : ReadResult) (errno : Int) : Turn (Except Error Bytes) (Reading policy) :=
  if result.count = 0 then .leave (.ok state.content)
  else if result.count < 0 then
    if errno = EINTR then
      if h : state.retries < policy.readRetries then
        .again { state with retries := state.retries + 1, retried := Reading.retried_succ h }
      else .leave (.error { message := utf8 "Exact file read retry limit exceeded", code := E2BIG })
    else .leave (.error { message := utf8 "Failed to read exact file", code := codeOf errno })
  else
    let bytes := result.count.toUInt64
    if state.request < bytes then
      .leave (.error { message := utf8 "Exact file read exceeded the requested byte count", code := EIO })
    else if h : state.remaining < bytes then
      .leave (.error { message := utf8 "Exact file content limit exceeded", code := E2BIG })
    else
      .again { state with
               content := state.content ++ result.buffer.toList.take bytes.toNat
               within := Reading.within_append result.buffer (UInt64.not_lt.mp h) }

/-- The bytes that a read has given. -/
def delivered (result : ReadResult) : Bytes := result.buffer.toList.take result.count.toNatClampNeg

/-- The file goes on after an interrupted read that may be tried again, and after one that has given bytes. -/
inductive ReadOn (state next : Reading policy) (result : ReadResult) (errno : Int) : Prop where
  | interrupted (count : result.count < 0) (errno_eq : errno = EINTR) (content : next.content = state.content)
      (left : state.retries.toNat < policy.readRetries.toNat) (retries : next.retries.toNat = state.retries.toNat + 1)
  | given (count : 0 < result.count) (some : delivered result ≠ [])
      (content : next.content = state.content ++ delivered result) (retries : next.retries = state.retries)

theorem delivered_ne_nil {result : ReadResult} (h : 0 < result.count) : delivered result ≠ [] := by
  have hcount : 0 < result.count.toNatClampNeg := by
    have hint := Int64.lt_iff_toInt_lt.mp h
    rw [Int64.toInt_eq_toNatClampNeg (Int64.le_of_lt h), Int64.toInt_zero] at hint
    omega
  rw [← List.length_pos_iff, delivered, List.length_take, Vector.length_toList]
  omega

theorem readTurn_again {state next : Reading policy} {result : ReadResult} {errno : Int}
    (h : readTurn state result errno = .again next) : ReadOn state next result errno := by
  rw [readTurn] at h
  dsimp only at h
  split_ifs at h with hzero hneg hintr hleft hmore hover
  · cases h
    refine .interrupted hneg hintr rfl (UInt64.lt_iff_toNat_lt.mp hleft) ?_
    have hlt := UInt64.lt_iff_toNat_lt.mp hleft
    have hbound := policy.readRetries.toNat_lt
    rw [UInt64.toNat_add, UInt64.toNat_one, Nat.mod_eq_of_lt (by omega)]
  · cases h
    have hpos : 0 < result.count := Int64.lt_of_le_of_ne (Int64.not_lt.mp hneg) (Ne.symm hzero)
    refine .given hpos (delivered_ne_nil hpos) ?_ rfl
    rw [delivered, ← Int64.toNat_toUInt64_of_le (Int64.le_of_lt hpos)]

theorem ReadOn.budget_lt {state next : Reading policy} {result : ReadResult} {errno : Int}
    (h : ReadOn state next result errno) : next.budget < state.budget := by
  have hwithin := next.within
  cases h with
  | interrupted count errno_eq content left retries =>
    rw [Reading.budget, Reading.budget, content, retries]
    omega
  | given count some content retries =>
    have hpos := List.length_pos_iff.mpr some
    rw [content, List.length_append] at hwithin
    rw [Reading.budget, Reading.budget, content, retries, List.length_append]
    omega

variable (context : ContextInterface)

def readLoop (descriptor : Int) (state : Reading policy) : Collect Bytes := do
  let (result, errno) ← readFileDescriptor context descriptor state.request
  match _hturn : readTurn state result errno with
  | .leave (.ok content) => pure content
  | .leave (.error error) => throw (.error error)
  | .again next =>
    record (.retains next.content)
    readLoop descriptor next
termination_by state.budget
decreasing_by exact (readTurn_again _hturn).budget_lt

/-- `maxSize` is the most that a `std::string` can hold. -/
def readCompleteFile (maxSize : UInt64) (descriptor : Int) (before : FileMetadata) (policy : FileCollectionPolicy) :
    Collect Bytes := do
  if maxSize < policy.contentBytes then fail "Exact file content limit is not representable" EOVERFLOW
  else
    let content ← readLoop context descriptor (.start policy)
    if 0 < before.size ∧ content.length ≠ before.size then fail "Exact file ended before its stable size" EIO
    else
      let after ← statFileDescriptor context descriptor "Failed to verify exact file after reading"
      if !sameObservedFile before after then fail "Exact file changed while being read" EAGAIN
      else pure content

end Read

section Project

/-- The most items that a `std::vector` of them can hold. -/
def itemsMaxSize : Nat := (2 ^ 63 - 1) / 48

def substr (bytes : Bytes) (offset length : Nat) : Except Failure Bytes :=
  if bytes.length < offset then .error (.thrown .exception) else .ok ((bytes.drop offset).take length)

def projectNameservers (selection : Document) (maxValues : UInt64) : Except Failure ObjectCollection := do
  let items ← selection.captures.foldlM (fun items capture => do
    if maxValues.toNat ≤ items.length then
      .error (.error { message := utf8 "Exact file value limit exceeded", code := E2BIG })
    else if itemsMaxSize ≤ items.length then
      .error (.error { message := utf8 "Exact file capture collection is not representable", code := EOVERFLOW })
    else
      let value ← substr selection.bytes capture.offset capture.length
      pure (items ++ [{ fields := (∅ : ByteMap (List Bytes)).insert (utf8 "subexpression") [value] }])) []
  pure { items, complete := true }

def selectNameservers (policy : FileCollectionPolicy) (path content : Bytes) : Except Failure ObjectCollection :=
  let limits : Limits :=
    { occurrences := policy.occurrences, captureBytes := policy.captureBytes, capturedBytes := policy.capturedBytes }
  match (findNameserverCaptures content path limits (content.length + 2)).get
      (findNameserverCaptures_isSome content path limits) with
  | .error error => .error (.error error)
  | .ok selection => projectNameservers selection policy.values

end Project

section Collect

variable (context : ContextInterface) (maxSize : UInt64) (path : Bytes) (policy : FileCollectionPolicy)

/-- What is done while `data` and `pinned` are in scope, in this order. -/
def readPinned (pathMetadata : FileMetadata) (descriptor : Int) : EStateM Failure (Int × Int × List Event) ObjectCollection := do
  let dataMetadata ← aside (aside (statFileDescriptor context descriptor "Failed to inspect pinned exact file"))
  if !sameIdentity pathMetadata dataMetadata then fail "Pinned exact file identity changed" EAGAIN
  else
    let content ← aside (aside (readCompleteFile context maxSize descriptor dataMetadata policy))
    Descriptor.close fun descriptor => aside (Descriptor.finalize context descriptor)
    aside (Descriptor.close (Descriptor.finalize context))
    match selectNameservers policy path content with
    | .ok collection => pure collection
    | .error failure => throw failure

def descriptorPath (descriptor : Int) : Bytes := utf8 "/proc/self/fd/" ++ utf8 (toString descriptor)

/-- What is done while `pinned` is in scope. -/
def openPinned (descriptor : Int) : EStateM Failure (Int × List Event) ObjectCollection := do
  let pathMetadata ← aside (statFileDescriptor context descriptor "Failed to inspect exact file path")
  if pathMetadata.isLink then fail "Exact file symlink is not allowed" ELOOP
  else if !pathMetadata.isRegular then fail "Exact file target is not a regular file" EINVAL
  else
    let dataDescriptor ← aside (openExistingFile context (descriptorPath descriptor) (O_RDONLY ||| O_CLOEXEC)
      "Failed to open pinned exact file")
    inScope dataDescriptor (fun descriptor s => (s.1, Descriptor.destroy context descriptor s.2))
      (readPinned context maxSize path policy pathMetadata dataDescriptor)

def collect (pathFlags : Nat) : Collect ObjectCollection := do
  let descriptor ← openExistingFile context path pathFlags "Failed to open exact file path"
  inScope descriptor (Descriptor.destroy context) (openPinned context maxSize path policy descriptor)

/-- The handlers of `CollectNameserverObject`. -/
def handled : Failure → Error
  | .error error => error
  | .thrown .badAlloc => { message := utf8 "Exact file operation allocation failed", code := ENOMEM }
  | .thrown .lengthError => { message := utf8 "Exact file operation result is not representable", code := EOVERFLOW }
  | .thrown .exception => { message := utf8 "Exact file operation threw an exception", code := EIO }
  | .thrown .unknown => { message := utf8 "Exact file operation threw an unknown exception", code := EIO }

def pathFlags : RootSymlinkPolicy → Option Nat
  | .followRegular => some (O_PATH ||| O_CLOEXEC)
  | .reject => some (O_PATH ||| O_CLOEXEC ||| O_NOFOLLOW)
  | .other _ => none

def collectNameserverObject : EStateM Error (List Event) ObjectCollection :=
  if path.head? ≠ some 0x2F ∨ 0 ∈ path then
    throw { message := utf8 "A NUL-free absolute path is required", code := EINVAL }
  else if policy.contentBytes = 0 ∨ policy.occurrences = 0 ∨ policy.captureBytes = 0 ∨ policy.capturedBytes = 0 ∨
      policy.values = 0 ∨ policy.readRetries = 0 then
    throw { message := utf8 "Exact file limits must be positive", code := EINVAL }
  else
    match pathFlags policy.rootSymlinks with
    | none => throw { message := utf8 "Invalid root symlink policy", code := EINVAL }
    | some pathFlags => caught handled (collect context maxSize path policy pathFlags)

end Collect

end Kompli.FileObjectCollector
