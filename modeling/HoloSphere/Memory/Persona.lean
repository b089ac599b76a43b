import Mathlib.Algebra.Group.Nat.Defs
import Mathlib.Data.List.Basic

/-! # Agent memory

The ingestion of facts by `AutonomousMemoryConsolidator` in
`ecosystem/agent_memory.rs`.  An `f32` is its bit pattern.  Comparisons with zero
and one read the pattern; the arithmetic behind a fact's expiry is a parameter,
since ingestion stores its result and decides nothing by it.
-/

namespace HoloSphere.Memory

/-- The `f32` operations that the crate takes from the processor and the standard
    library. -/
class F32Arithmetic where
  add : UInt32 → UInt32 → UInt32
  mul : UInt32 → UInt32 → UInt32
  neg : UInt32 → UInt32
  ln : UInt32 → UInt32
  ofU32 : Nat → UInt32
  /-- The saturating cast to `u64`. -/
  toU64 : UInt32 → Nat
  display : UInt32 → String

namespace F32

def one : UInt32 := 0x3F800000
def two : UInt32 := 0x40000000
def secondsPerDay : UInt32 := 0x47A8C000

/-- `x < 0.0`: the sign bit is set, and `x` is neither the negative zero nor a NaN. -/
def ltZero (bits : UInt32) : Bool := 0x80000000 < bits && bits ≤ 0xFF800000

/-- `x > 1.0`: above the pattern of one, up to infinity. -/
def gtOne (bits : UInt32) : Bool := one < bits && bits ≤ 0x7F800000

end F32

inductive FactCategory where
  | userPreference
  | biographicalData
  | systemInstruction
  | worldKnowledge
  | temporalEvent
  deriving DecidableEq

structure EpisodicFact where
  factId : String
  subject : String
  predicate : String
  object : String
  category : FactCategory
  confidence : UInt32
  emotionalSalience : UInt32
  recallCount : Nat
  lastAccessedSecs : Nat
  createdAtSecs : Nat
  deriving DecidableEq

structure ExpirationRecord where
  tExpire : Nat
  factId : String
  deriving DecidableEq

/-- A user's profile; the heap is the list of records pushed onto it. -/
structure UserPersonaProfile where
  userId : String
  preferences : String → Option String
  consolidatedFacts : List EpisodicFact
  totalInteractions : Nat
  expiryHeap : List ExpirationRecord

structure AutonomousMemoryConsolidator where
  profiles : String → Option UserPersonaProfile
  totalConsolidations : Nat
  totalConflictsResolved : Nat

/-- `0.05`, the threshold for which expiry is computed on ingestion. -/
def defaultRPrune : UInt32 := 0x3D4CCCCD

def saturatingAdd (left right : Nat) : Nat := min (left + right) (2 ^ 64 - 1)

section
variable [F32Arithmetic]
open F32Arithmetic

def computeExpirySecs (fact : EpisodicFact) (rPrune : UInt32) : Nat :=
  let memoryStrength := mul (add (ofU32 fact.recallCount) F32.one)
    (add F32.one (mul fact.emotionalSalience F32.two))
  let lifetime := mul (mul (neg (ln rPrune)) memoryStrength) F32.secondsPerDay
  saturatingAdd fact.lastAccessedSecs (toU64 lifetime)

namespace UserPersonaProfile

def fresh (userId : String) : UserPersonaProfile := ⟨userId, fun _ => none, [], 0, []⟩

/-- The first fact about the same subject and predicate. -/
def conflictIndex (fact : EpisodicFact) (profile : UserPersonaProfile) : Option Nat :=
  profile.consolidatedFacts.findIdx? fun existing =>
    existing.subject == fact.subject && existing.predicate == fact.predicate

def ingest (fact : EpisodicFact) (profile : UserPersonaProfile) : UserPersonaProfile :=
  let facts := match profile.conflictIndex fact with
    | some slot => profile.consolidatedFacts.set slot fact
    | none => profile.consolidatedFacts ++ [fact]
  let preferences :=
    if fact.category = .userPreference then
      Function.update profile.preferences fact.predicate (some fact.object)
    else profile.preferences
  { profile with
    preferences := preferences
    consolidatedFacts := facts
    totalInteractions := profile.totalInteractions + 1
    expiryHeap := profile.expiryHeap ++ [⟨computeExpirySecs fact defaultRPrune, fact.factId⟩] }

end UserPersonaProfile

namespace AutonomousMemoryConsolidator

/-- Ingestion has no way to fail. -/
def ingestFact (userId : String) (fact : EpisodicFact) (memory : AutonomousMemoryConsolidator) :
    AutonomousMemoryConsolidator :=
  let profile := (memory.profiles userId).getD (.fresh userId)
  let resolved := if (profile.conflictIndex fact).isSome then 1 else 0
  { profiles := Function.update memory.profiles userId (some (profile.ingest fact))
    totalConsolidations := memory.totalConsolidations + 1
    totalConflictsResolved := memory.totalConflictsResolved + resolved }

end AutonomousMemoryConsolidator
end
end HoloSphere.Memory
