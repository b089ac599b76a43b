import Mathlib.Algebra.Group.Nat.Defs
import Mathlib.Data.List.Basic

/-! # Engine errors

The error values of the crate, with the texts that its `Display` implementation
prints.  Only the variants which a modelled operation returns are listed.
-/

namespace HoloSphere

inductive HNSQRError where
  | dimensionMismatch (expected actual : Nat)
  | nodeNotFound (id : String)
  | nodeIndexNotFound (index : Nat)
  | nodeAlreadyExists (id : String)
  | indexFull (capacity : Nat)
  | invalidConfig (reason : String)
  | invalidRequest (reason : String)
  | ioError (reason : String)
  | snapshotIncompatible (reason : String)
  | corruptedSnapshot (reason : String)
  | internal (reason : String)
  deriving DecidableEq

namespace HNSQRError

def display : HNSQRError → String
  | .dimensionMismatch expected actual =>
    s!"Vector dimension mismatch: expected {expected}, got {actual}"
  | .nodeNotFound id => s!"Node not found: {id}"
  | .nodeIndexNotFound index => s!"Node index out of bounds: {index}"
  | .nodeAlreadyExists id => s!"Node already exists: {id}"
  | .indexFull capacity => s!"Index is full: current capacity {capacity}"
  | .invalidConfig reason => s!"Invalid configuration: {reason}"
  | .invalidRequest reason => s!"Invalid request: {reason}"
  | .ioError reason => s!"I/O error: {reason}"
  | .snapshotIncompatible reason => s!"Snapshot incompatible: {reason}"
  | .corruptedSnapshot reason => s!"Corrupted snapshot/log: {reason}"
  | .internal reason => s!"Internal error: {reason}"

end HNSQRError

/-- Rust's `Debug` text of an optional number. -/
def debugOption : Option Nat → String
  | none => "None"
  | some n => s!"Some({n})"

end HoloSphere
