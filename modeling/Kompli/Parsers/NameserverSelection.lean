import Kompli.ComplianceEngine.StringTools
import Kompli.Foundation.Backtracking
import Kompli.Foundation.Loop

/-! The captures of `^nameserver\s+(.*)$` in a text, found by hand and within limits. -/
namespace Kompli.NameserverSelection
open Foundation Foundation.Loop RegexSearch
open Streams (newline)

def E2BIG : Int := 7
def EOVERFLOW : Int := 75

structure Limits where
  occurrences : UInt64 := 16384
  captureBytes : UInt64 := 65536
  capturedBytes : UInt64 := 1024 * 1024

structure Capture where
  anchor : Nat
  offset : Nat
  length : Nat
  deriving DecidableEq

structure Document where
  bytes : Bytes
  source : Bytes
  captures : List Capture
  deriving DecidableEq

/-- The most captures that a `std::vector` can hold. -/
def maxSize : Nat := (2 ^ 63 - 1) / 24

def isAsciiWhitespace (value : UInt8) : Bool := value ∈ ([0x20, 0x09, 0x0A, 0x0D, 0x0B, 0x0C] : Bytes)

def keyword : Bytes := utf8 "nameserver"

/-- Where the capture starts, if the keyword and white space are at the anchor. -/
def cursorAt (content : Bytes) (anchor : Nat) : Option Nat :=
  let cursor := anchor + keyword.length
  if (content.drop anchor).take keyword.length = keyword ∧ content[cursor]?.any isAsciiWhitespace then
    some (cursor + ((content.drop cursor).takeWhile isAsciiWhitespace).length)
  else none

structure Selection where
  anchor : Nat := 0
  captures : List Capture := []
  capturedBytes : UInt64 := 0

section Loop

variable (content source : Bytes) (limits : Limits)

def document (captures : List Capture) : Document := { bytes := content, source, captures }

def occurrenceLimit : Error :=
  { message := utf8 "Nameserver selection occurrence limit exceeded: " ++ source, code := E2BIG }

def notRepresentable : Error :=
  { message := utf8 "Nameserver selection is not representable: " ++ source, code := EOVERFLOW }

def captureLimit : Error :=
  { message := utf8 "Nameserver selection capture limit exceeded: " ++ source, code := E2BIG }

def selectionTurn (state : Selection) : Turn (Except Error Document) Selection :=
  if content.length < state.anchor then .leave (.ok (document content source state.captures))
  else
    match cursorAt content state.anchor with
    | some cursor =>
      let ending := findFrom newline content cursor
      let captureLength := ending.getD content.length - cursor
      if limits.occurrences.toNat ≤ state.captures.length then .leave (.error (occurrenceLimit source))
      else if maxSize ≤ state.captures.length then .leave (.error (notRepresentable source))
      else if limits.captureBytes.toNat < captureLength ∨
          (limits.capturedBytes - state.capturedBytes).toNat < captureLength then
        .leave (.error (captureLimit source))
      else
        let captures := state.captures ++ [{ anchor := state.anchor, offset := cursor, length := captureLength }]
        match ending with
        | none => .leave (.ok (document content source captures))
        | some place =>
          .again { anchor := place + 1, captures,
                   capturedBytes := state.capturedBytes + UInt64.ofNat captureLength }
    | none =>
      match findFrom newline content state.anchor with
      | none => .leave (.ok (document content source state.captures))
      | some place => .again { state with anchor := place + 1 }

/-- Nothing where the fuel does not suffice. -/
def findNameserverCaptures (fuel : Nat) : Option (Except Error Document) :=
  if limits.occurrences = 0 ∨ limits.captureBytes = 0 ∨ limits.capturedBytes = 0 then
    some (.error { message := utf8 "Nameserver selection limits must be positive: " ++ source, code := EINVAL })
  else run (selectionTurn content source limits) fuel {}

end Loop

end Kompli.NameserverSelection
