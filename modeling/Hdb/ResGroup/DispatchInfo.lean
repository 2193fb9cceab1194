import Hdb.Lib.Memory

/-!
# Dispatching the resource group

The dispatcher sends the group of a query and its capabilities as numbers in network byte order,
with the string of cores and its length between them. The receiver takes the length of the string
from the message, and copies as many bytes as the whole message has.

A message is memory: what stands behind its last byte can be read, but is not part of it.

Main results: `deserialize_serialize`, the receiver gets what was sent, and `withinBounds_iff`, it
reads past the message unless it raises its error.
-/

namespace Hdb.ResGroupInfo

def maxCpuSetLength : ℕ := 1024

/-- The capabilities that are dispatched, the limits as 32-bit words. `cpuset` is the string in the
array of the source, without its terminator. -/
structure ResGroupCaps where
  concurrency : UInt32
  cpuRateLimit : UInt32
  memLimit : UInt32
  memSharedQuota : UInt32
  memSpillRatio : UInt32
  memAuditor : UInt32
  cpuset : List UInt8
  nonzero : ∀ b ∈ cpuset, b ≠ 0
  length_lt : cpuset.length < maxCpuSetLength

/-- `ClearResGroupCaps`. -/
def clearResGroupCaps : ResGroupCaps := ⟨0, 0, 0, 0, 0, 0, [], by simp, by decide⟩

/-- A word appended in network byte order. -/
def htonl (w : UInt32) : List UInt8 := toBigEndian 4 w.toNat

/-- `SerializeResGroupInfo`: the bytes it appends. -/
def serializeResGroupInfo (groupId : UInt32) (selfIsAssigned : Bool) (selfCaps : ResGroupCaps)
    (bypassedGroupId : UInt32) : List UInt8 :=
  let caps := if selfIsAssigned then selfCaps else clearResGroupCaps
  htonl groupId ++ htonl caps.concurrency ++ htonl caps.cpuRateLimit ++ htonl caps.memLimit ++
    htonl caps.memSharedQuota ++ htonl caps.memSpillRatio ++ htonl caps.memAuditor ++
    htonl (UInt32.ofNat caps.cpuset.length) ++ caps.cpuset ++ htonl bypassedGroupId

/-- What the receiver has afterwards; `cpuset` is memory from the array on. -/
structure Received where
  groupId : UInt32
  concurrency : UInt32
  cpuRateLimit : UInt32
  memLimit : UInt32
  memSharedQuota : UInt32
  memSpillRatio : UInt32
  memAuditor : UInt32
  cpuset : ℕ → UInt8
  bypassedGroupId : UInt32

/-- A call: what was received, or `none` for the error "malformed serialized resource group info",
with the offsets it read in the buffer and the ones it wrote behind `capsOut->cpuset`. -/
structure Call where
  received : Option Received
  reads : List ℕ
  writes : List ℕ

/-- A word of the buffer. -/
def ntohl (buf : ℕ → UInt8) (off : ℕ) : UInt32 := UInt32.ofNat (ofBigEndian (readBytes buf off 4))

/-- `DeserializeResGroupInfo`. The string is copied with the length of the message, so that a longer
message is copied behind the array too. Nothing else that the call reads or writes lies there. -/
def deserializeResGroupInfo (buf : ℕ → UInt8) (len : ℕ) (cpuset : ℕ → UInt8) : Call :=
  let cpusetLen := (ntohl buf 28).toNat
  if maxCpuSetLength ≤ cpusetLen then ⟨none, List.range 32, [0]⟩
  else
    let copied := fun i => if i < len then buf (32 + i) else Function.update cpuset 0 0 i
    { received := some {
        groupId := ntohl buf 0
        concurrency := ntohl buf 4
        cpuRateLimit := ntohl buf 8
        memLimit := ntohl buf 12
        memSharedQuota := ntohl buf 16
        memSpillRatio := ntohl buf 20
        memAuditor := ntohl buf 24
        cpuset := Function.update copied cpusetLen 0
        bypassedGroupId := ntohl buf (32 + cpusetLen) }
      reads := List.range 32 ++ List.range' 32 len ++ List.range' (32 + cpusetLen) 4
      writes := 0 :: List.range len ++ [cpusetLen] }

/-! ## The round trip -/

@[simp] theorem length_htonl (w : UInt32) : (htonl w).length = 4 := length_toBigEndian 4 _

theorem ntohl_of_holdsAt {buf : ℕ → UInt8} {off : ℕ} {w : UInt32} (h : HoldsAt buf off (htonl w)) :
    ntohl buf off = w := by
  have hlt : w.toNat < 256 ^ 4 := w.toNat_lt
  rw [ntohl, HoldsAt.ofBigEndian h, Nat.mod_eq_of_lt hlt, UInt32.ofNat_toNat]

/-- The receiver has the value that was sent. -/
structure Agrees (received : Received) (groupId : UInt32) (caps : ResGroupCaps)
    (bypassedGroupId : UInt32) : Prop where
  groupId : received.groupId = groupId
  concurrency : received.concurrency = caps.concurrency
  cpuRateLimit : received.cpuRateLimit = caps.cpuRateLimit
  memLimit : received.memLimit = caps.memLimit
  memSharedQuota : received.memSharedQuota = caps.memSharedQuota
  memSpillRatio : received.memSpillRatio = caps.memSpillRatio
  memAuditor : received.memAuditor = caps.memAuditor
  cpuset : cString maxCpuSetLength received.cpuset = caps.cpuset
  bypassedGroupId : received.bypassedGroupId = bypassedGroupId

/-- **The receiver gets what was sent**, whatever stands behind the message. -/
theorem deserialize_serialize (groupId : UInt32) (selfIsAssigned : Bool) (selfCaps : ResGroupCaps)
    (bypassedGroupId : UInt32) {buf : ℕ → UInt8} (cpuset : ℕ → UInt8)
    (hbuf : HoldsAt buf 0
      (serializeResGroupInfo groupId selfIsAssigned selfCaps bypassedGroupId)) :
    ∃ received, (deserializeResGroupInfo buf
        (serializeResGroupInfo groupId selfIsAssigned selfCaps bypassedGroupId).length
        cpuset).received = some received ∧
      Agrees received groupId (if selfIsAssigned then selfCaps else clearResGroupCaps)
        bypassedGroupId := by
  unfold serializeResGroupInfo at hbuf ⊢
  generalize (if selfIsAssigned = true then selfCaps else clearResGroupCaps) = caps at hbuf ⊢
  dsimp only at hbuf ⊢
  simp only [holdsAt_append, List.length_append, length_htonl, Nat.zero_add] at hbuf ⊢
  obtain ⟨⟨⟨⟨⟨⟨⟨⟨⟨h₀, h₁⟩, h₂⟩, h₃⟩, h₄⟩, h₅⟩, h₆⟩, hlen⟩, hstring⟩, hbypass⟩ := hbuf
  have hlt := caps.length_lt
  have hcpusetLen : (ntohl buf 28).toNat = caps.cpuset.length := by
    rw [ntohl_of_holdsAt hlen, UInt32.toNat_ofNat']
    exact Nat.mod_eq_of_lt (hlt.trans (by decide))
  rw [deserializeResGroupInfo, hcpusetLen, if_neg (not_le.mpr hlt)]
  refine ⟨_, rfl, ntohl_of_holdsAt h₀, ntohl_of_holdsAt h₁, ntohl_of_holdsAt h₂,
    ntohl_of_holdsAt h₃, ntohl_of_holdsAt h₄, ntohl_of_holdsAt h₅, ntohl_of_holdsAt h₆, ?_,
    ntohl_of_holdsAt hbypass⟩
  refine cString_eq ?_ (by dsimp only; exact Function.update_self _ _ _) caps.nonzero hlt
  refine List.ext_getElem (length_readBytes _ _ _) fun i hi hi' => ?_
  rw [length_readBytes] at hi
  have hne : 0 + i ≠ caps.cpuset.length := by omega
  simp only [readBytes, List.getElem_map, List.getElem_range]
  rw [Function.update_of_ne hne, if_pos (by omega), Nat.zero_add]
  exact hstring.getElem hi'

/-! ## The bounds -/

/-- The error is raised, or only the message is read and only `cpuset` is written. -/
def WithinBounds (buf : ℕ → UInt8) (len : ℕ) (cpuset : ℕ → UInt8) : Prop :=
  (deserializeResGroupInfo buf len cpuset).received = none ∨
    ((∀ r ∈ (deserializeResGroupInfo buf len cpuset).reads, r < len) ∧
      ∀ w ∈ (deserializeResGroupInfo buf len cpuset).writes, w < maxCpuSetLength)

/-- **The copy of the string goes past the end of every message it is made from.** -/
theorem withinBounds_iff (buf : ℕ → UInt8) (len : ℕ) (cpuset : ℕ → UInt8) :
    WithinBounds buf len cpuset ↔ maxCpuSetLength ≤ (ntohl buf 28).toNat := by
  unfold WithinBounds deserializeResGroupInfo
  by_cases hle : maxCpuSetLength ≤ (ntohl buf 28).toNat
  · simp only [hle, if_true, true_or]
  · simp only [hle, if_false, iff_false]
    rintro (h | ⟨hreads, -⟩)
    · cases h
    · -- the last byte copied, or the last of the fixed part when nothing is copied
      have hmem : 31 + len ∈ List.range 32 ++ List.range' 32 len ++
          List.range' (32 + (ntohl buf 28).toNat) 4 := by
        simp only [List.mem_append, List.mem_range, List.mem_range'_1]
        omega
      have hlt := hreads _ hmem
      omega

/-- Capabilities with one core. -/
def oneCoreCaps : ResGroupCaps := ⟨20, 30, 0, 80, 0, 0, [48], by simp, by decide⟩

/-- The message of a group with `oneCoreCaps`, and zeros behind it. -/
def oneCoreMessage : List UInt8 := serializeResGroupInfo 6438 true oneCoreCaps 0

def oneCoreBuffer (i : ℕ) : UInt8 := oneCoreMessage.getD i 0

/-- The receiver of a message of 37 bytes reads 37 bytes from offset 32 on. -/
theorem oneCore_reads_past :
    ¬ WithinBounds oneCoreBuffer oneCoreMessage.length (fun _ => 0) := by
  rw [withinBounds_iff]
  decide

/-- **What a dispatched group is good for**: it comes back as it was sent, but every call that does
not raise the error reads past its message. -/
theorem dispatched_resGroupInfo (groupId : UInt32) (selfIsAssigned : Bool) (selfCaps : ResGroupCaps)
    (bypassedGroupId : UInt32) (buf : ℕ → UInt8) (len : ℕ) (cpuset : ℕ → UInt8) :
    (HoldsAt buf 0 (serializeResGroupInfo groupId selfIsAssigned selfCaps bypassedGroupId) →
      ∃ received, (deserializeResGroupInfo buf
          (serializeResGroupInfo groupId selfIsAssigned selfCaps bypassedGroupId).length
          cpuset).received = some received ∧
        Agrees received groupId (if selfIsAssigned then selfCaps else clearResGroupCaps)
          bypassedGroupId) ∧
    (WithinBounds buf len cpuset ↔ maxCpuSetLength ≤ (ntohl buf 28).toNat) :=
  ⟨deserialize_serialize groupId selfIsAssigned selfCaps bypassedGroupId cpuset,
    withinBounds_iff buf len cpuset⟩

theorem dispatched_oneCore :
    ∃ received, (deserializeResGroupInfo oneCoreBuffer oneCoreMessage.length
        fun _ => 0).received = some received ∧ Agrees received 6438 oneCoreCaps 0 :=
  (dispatched_resGroupInfo 6438 true oneCoreCaps 0 oneCoreBuffer 0 fun _ => 0).1
    (by unfold HoldsAt; decide)

end Hdb.ResGroupInfo
