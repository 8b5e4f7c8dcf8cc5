import Kompli.Foundation.DirectoryTree
import Kompli.Foundation.EcmaScript
import Kompli.Foundation.Lines
import Kompli.Procedures.KernelModule

/-! The audit of whether a kernel module is unavailable. -/
namespace Kompli.KernelModule
open Foundation Streams

/-- What is found where the modules of a kernel should be. -/
inductive KernelDir where
  | absent
  /-- `stat` fails, and not because nothing is there. -/
  | failed
  | notDirectory
  /-- `fts_open` fails. -/
  | unreadable
  | tree (nodes : List (DirectoryNode Bytes))

def KernelDir.files : KernelDir → List Bytes
  | .tree nodes => DirectoryNode.files nodes
  | _ => []

/-- An entry of `/lib/modules`, and whether its type is that of a directory. -/
structure VersionEntry where
  name : Bytes
  isDirectory : Bool

/-- What an audit reads. -/
structure Host where
  /-- The entries of `/lib/modules` in the order they are read in, where it can be opened. -/
  modulesDir : Option (List VersionEntry)
  /-- The directory `kernel` under a name in `/lib/modules`. -/
  kernelDir : Bytes → KernelDir
  procModules : Except Error Bytes
  runningKernelRelease : Option Bytes
  /-- What `modprobe --showconfig` prints. -/
  showConfig : Except Error Bytes

section Search

/-- The kernel has underscores where the name of a module may have dashes. -/
def dashesReplaced (name : Bytes) : Bytes := name.map fun c => if c = 0x2D then 0x5F else c

def overlay (moduleName : Bytes) : Bytes := moduleName ++ utf8 "_overlay"

def isTarget (target fileName : Bytes) : Bool :=
  target.isPrefixOf (dashesReplaced fileName) || (dashesReplaced target).isPrefixOf (dashesReplaced fileName)

def isModuleFile (moduleName fileName : Bytes) : Bool := isTarget (moduleName ++ utf8 ".ko") fileName

def isOverlayFile (moduleName fileName : Bytes) : Bool := isTarget (moduleName ++ utf8 "_overlay.ko") fileName

/-- What the module is called once one of its files is found. -/
def foundAs (moduleName fileName : Bytes) : Option Bytes :=
  if isModuleFile moduleName fileName then some moduleName
  else if isOverlayFile moduleName fileName then some (overlay moduleName)
  else none

/-- Whether the module is there, and what it is called from then on. -/
def searchFilesystemForModuleName (host : Host) (moduleName : Bytes) : Except Error (Bool × Bytes) :=
  match host.modulesDir with
  | none => .error { message := utf8 "Failed to open /lib/modules directory" }
  | some entries =>
    let found := entries.findSome? fun entry =>
      if entry.isDirectory then (host.kernelDir entry.name).files.findSome? (foundAs moduleName) else none
    match found with
    | some moduleName => .ok (true, moduleName)
    | none => .ok (false, moduleName)

/-- Where the release of the running kernel or what is in its directory is not known, the module may be there. -/
def isModuleAvailableInRunningKernel (host : Host) (moduleName : Bytes) : Bool :=
  match host.runningKernelRelease with
  | none => true
  | some release =>
    match host.kernelDir release with
    | .absent => false
    | .failed => true
    | .notDirectory => false
    | .unreadable => false
    | .tree nodes =>
      (DirectoryNode.files nodes).any fun fileName => isModuleFile moduleName fileName || isOverlayFile moduleName fileName

end Search

section Configuration

/-- `std::regex` of a pattern, and what it finds a match in. -/
abbrev RegexEngine := Bytes → Except Error (Bytes → Bool)

def multilineRegexSearch (text : Bytes) (search : Bytes → Bool) : Bool := (lines text).any search

/-- A dash and an underscore stand for either. -/
def underscoreForRegex (input : Bytes) : Bytes :=
  input.flatMap fun c => if c = 0x5F ∨ c = 0x2D then utf8 "[-_]" else [c]

def loadedPattern (moduleName : Bytes) : Bytes := utf8 "^" ++ underscoreForRegex moduleName ++ utf8 "\\s+"

def blocklistPattern (moduleName : Bytes) : Bytes := utf8 "^blacklist\\s+" ++ underscoreForRegex moduleName ++ utf8 "$"

def installPattern (moduleName : Bytes) : Bytes :=
  utf8 "^install\\s+" ++ underscoreForRegex moduleName ++ utf8 "\\s+(/usr)?/bin/(true|false)"

variable (regex : RegexEngine)

def isKernelModuleLoaded (host : Host) (moduleName : Bytes) : Except Error Bool := do
  let procModules ← host.procModules
  let search ← regex (loadedPattern moduleName)
  pure (multilineRegexSearch procModules search)

def isKernelModuleBlocked (host : Host) (moduleName : Bytes) (requireMask : Bool) : Except Error Indicator :=
  match host.showConfig with
  | .error e => .error { message := utf8 "Failed to execute modprobe --showconfig: " ++ e.message, code := e.code }
  | .ok output => do
    let blocklisted ← regex (blocklistPattern moduleName)
    if multilineRegexSearch output blocklisted = false then
      pure { message := utf8 "Module " ++ moduleName ++ utf8 " is not blocklisted in modprobe configuration"
             status := .nonCompliant }
    else
      let disabled : Indicator := { message := utf8 "Module " ++ moduleName ++ utf8 " is disabled", status := .compliant }
      if requireMask then do
        let masked ← regex (installPattern moduleName)
        if multilineRegexSearch output masked = false then
          pure { message := utf8 "Module " ++ moduleName ++ utf8 " is not masked in modprobe configuration"
                 status := .nonCompliant }
        else pure disabled
      else pure disabled

/-- What is checked of a module that is there, under the name it was found as. -/
def checkModule (host : Host) (moduleName : Bytes) : Except Error Indicator := do
  let moduleLoaded ← isKernelModuleLoaded regex host moduleName
  if moduleLoaded then pure { message := utf8 "Module " ++ moduleName ++ utf8 " is loaded", status := .nonCompliant }
  else isKernelModuleBlocked regex host moduleName (isModuleAvailableInRunningKernel host moduleName)

def auditKernelModuleUnavailable (host : Host) (moduleName : Bytes) : Except Error Indicator := do
  let (modulePresent, moduleName) ← searchFilesystemForModuleName host moduleName
  if modulePresent then checkModule regex host moduleName
  else pure { message := utf8 "Module " ++ moduleName ++ utf8 " not found", status := .compliant }

/-- The status that is returned, if one is. -/
def auditStatus (host : Host) (moduleName : Bytes) : Option Status :=
  (auditKernelModuleUnavailable regex host moduleName).toOption.map (·.status)

end Configuration

end Kompli.KernelModule
