import Hdb.Lib.Memory
import Hdb.Lib.Run

/-!
# The dispatched transaction context

The dispatcher describes its transaction in a `DtxContextInfo`, with the distributed snapshot in it,
and sends it as bytes in the order of its fields. Three parts are there only when something else
says so: the identity of the transaction, the snapshot, and the entries of the snapshot. The
receiver reads the message into a structure that it reuses, whose array it keeps, or frees and
allocates again when it is too small.

A pointer is an `Option` of what it points to. What `malloc` gives is arbitrary, so it is a
parameter of the calls that allocate.
-/

namespace Hdb.DtxContext

/-- The errors of the module, with the level and the text of the source. -/
inductive DtxError where
  /-- ERROR, "cannot reset a copied distributed snapshot" -/
  | copiedSnapshot
  /-- ERROR, "out of memory" -/
  | outOfMemory
  /-- ERROR, "Bad allocation of in-progress array" -/
  | badAllocation
  /-- PANIC, "Distribute transaction identifier too long (%d)" -/
  | identifierTooLong
  /-- FATAL, "cannot have more than 2^32-2 commands in a session" -/
  | tooManyCommands
  deriving DecidableEq

/-! ## The distributed snapshot -/

/-- `maxCount` is the allocated size of the array, or -1 when it is not from `malloc`. -/
structure DistributedSnapshot where
  distribTransactionTimeStamp : UInt32
  xminAllDistributedSnapshots : UInt32
  distribSnapshotId : UInt32
  xmin : UInt32
  xmax : UInt32
  count : ℤ
  maxCount : ℤ
  inProgressXidArray : Option (List UInt32)
  deriving DecidableEq

namespace DistributedSnapshot

/-- `DistributedSnapshot_StaticInit`. -/
def staticInit : DistributedSnapshot := ⟨0, 0, 0, 0, 0, 0, 0, none⟩

/-- The first `count` entries of the array. -/
def xip (ds : DistributedSnapshot) : List UInt32 :=
  (ds.inProgressXidArray.getD []).take ds.count.toNat

/-- The fields `DistributedSnapshot_Reset` clears. -/
def cleared (ds : DistributedSnapshot) : DistributedSnapshot :=
  { ds with
    distribTransactionTimeStamp := 0
    xminAllDistributedSnapshots := 0
    distribSnapshotId := 0
    xmin := 0
    xmax := 0
    count := 0 }

/-- `DistributedSnapshot_Reset`. -/
def reset (ds : DistributedSnapshot) : Except DtxError DistributedSnapshot :=
  if ds.maxCount < 0 then throw .copiedSnapshot else return ds.cleared

/-- An array that is too small is freed. -/
def freeIfSmall (count : ℤ) (ds : DistributedSnapshot) : DistributedSnapshot :=
  if ds.inProgressXidArray.isSome ∧ ds.maxCount < count then
    { ds with maxCount := 0, inProgressXidArray := none }
  else ds

def extraXidArrayHeadroom : ℤ := 10

/-- A missing array is allocated, with some headroom. The size is an `int`. -/
def allocate (fresh : ℕ → UInt32) (count : ℤ) (ds : DistributedSnapshot) :
    Except DtxError DistributedSnapshot :=
  if ds.inProgressXidArray.isSome then return ds
  else
    let maxCount := (count + extraXidArrayHeadroom).bmod (2 ^ 32)
    if maxCount < 0 then throw .outOfMemory
    else return { ds with
      maxCount := maxCount
      inProgressXidArray := some ((List.range maxCount.toNat).map fresh) }

/-- `memcpy` to the start of the array. -/
def fillArray (xids : List UInt32) (ds : DistributedSnapshot) : DistributedSnapshot :=
  { ds with
    inProgressXidArray := ds.inProgressXidArray.map fun arr => xids ++ arr.drop xids.length }

/-- `DistributedSnapshot_Copy`. -/
def copy (fresh : ℕ → UInt32) (target source : DistributedSnapshot) :
    Except DtxError DistributedSnapshot := do
  let target ← target.reset
  let target ← (target.freeIfSmall source.count).allocate fresh source.count
  return fillArray source.xip { target with
    distribTransactionTimeStamp := source.distribTransactionTimeStamp
    xminAllDistributedSnapshots := source.xminAllDistributedSnapshots
    distribSnapshotId := source.distribSnapshotId
    xmin := source.xmin
    xmax := source.xmax
    count := source.count }

end DistributedSnapshot

/-- A 32-bit word in memory order. -/
def word (w : UInt32) : List UInt8 := toLittleEndian 4 w.toNat

/-- An `int` as a word. -/
def intWord (x : ℤ) : UInt32 := UInt32.ofNat (x % 2 ^ 32).toNat

/-- The word at an offset of the buffer. -/
def wordAt (buf : ℕ → UInt8) (off : ℕ) : UInt32 :=
    UInt32.ofNat (ofLittleEndian (readBytes buf off 4))

/-- A word read as an `int`. -/
def intOf (w : UInt32) : ℤ := (w.toNat : ℤ).bmod (2 ^ 32)

namespace DistributedSnapshot

/-- `DistributedSnapshot_SerializeSize`, an `int`. -/
def serializeSize (ds : DistributedSnapshot) : ℤ := (4 + 4 + 3 * 4 + 4 + 4 * ds.count).bmod (2 ^ 32)

/-- `DistributedSnapshot_Serialize`. -/
def serialize (ds : DistributedSnapshot) : List UInt8 :=
  word ds.distribTransactionTimeStamp ++ word ds.xminAllDistributedSnapshots ++
    word ds.distribSnapshotId ++ word ds.xmin ++ word ds.xmax ++ word (intWord ds.count) ++
    ds.xip.flatMap word

/-- `DistributedSnapshot_Deserialize` at an offset of the buffer, with the bytes consumed. -/
def deserialize (fresh : ℕ → UInt32) (buf : ℕ → UInt8) (off : ℕ) (ds : DistributedSnapshot) :
    Except DtxError (ℕ × DistributedSnapshot) := do
  let ds := { ds with
    distribTransactionTimeStamp := wordAt buf off
    xminAllDistributedSnapshots := wordAt buf (off + 4)
    distribSnapshotId := wordAt buf (off + 8)
    xmin := wordAt buf (off + 12)
    xmax := wordAt buf (off + 16) }
  let count := intOf (wordAt buf (off + 20))
  if ds.inProgressXidArray.isSome ∧ ds.maxCount ≤ 0 then throw .badAllocation
  let ds ← (ds.freeIfSmall count).allocate fresh count
  -- nothing is copied for a count that is not positive
  let xids := (List.range count.toNat).map fun i => wordAt buf (off + 24 + 4 * i)
  return (24 + 4 * count.toNat, { ds.fillArray xids with count := count })

end DistributedSnapshot

/-! ## The context -/

/-- `char[TMGIDSIZE]`. -/
structure TmGid where
  bytes : List UInt8
  length_eq : bytes.length = 22
  deriving DecidableEq

def TmGid.init : TmGid := ⟨List.replicate 21 32 ++ [0], rfl⟩

structure DtxContextInfo where
  distributedTimeStamp : UInt32
  distributedXid : UInt32
  distributedId : TmGid
  haveDistributedSnapshot : Bool
  cursorContext : Bool
  distributedSnapshot : DistributedSnapshot
  distributedTxnOptions : UInt32
  segmateSync : UInt32
  nestingLevel : UInt32
  curcid : UInt32
  deriving DecidableEq

/-- What the session that creates a context knows of its transaction. -/
structure Session where
  isDtxContext : Bool
  gxid : UInt32
  distribTimeStamp : UInt32
  dtxStartTime : UInt32
  nestLevel : UInt32

/-- `%u`. -/
def decimal (n : UInt32) : List UInt8 := (Nat.toDigits 10 n.toNat).map Char.toUInt8

/-- The text `%u-%.10u` and its terminator. -/
def gidText (tstamp gxid : UInt32) : List UInt8 :=
  decimal tstamp ++ [45] ++ (decimal gxid).leftpad 10 48 ++ [0]

theorem length_decimal_le (n : UInt32) : (decimal n).length ≤ 10 := by
  rw [decimal, List.length_map, Nat.length_toDigits_le_iff (by decide) (by decide)]
  exact n.toNat_lt.trans (by decide)

theorem length_gidText_le (tstamp gxid : UInt32) : (gidText tstamp gxid).length ≤ 22 := by
  have htstamp := length_decimal_le tstamp
  have hgxid := length_decimal_le gxid
  simp only [gidText, List.length_append, List.length_leftpad, List.length_singleton]
  omega

/-- `dtxFormGID`: what stands behind the text stays. -/
def dtxFormGID (gid : TmGid) (tstamp gxid : UInt32) : TmGid where
  bytes := gidText tstamp gxid ++ gid.bytes.drop (gidText tstamp gxid).length
  length_eq := by
    have hle := length_gidText_le tstamp gxid
    rw [List.length_append, List.length_drop, gid.length_eq]
    omega

def getDistributedTransactionId (s : Session) : UInt32 := if s.isDtxContext then s.gxid else 0

/-- `getDistributedTransactionIdentifier`. -/
def getDistributedTransactionIdentifier (s : Session) (id : TmGid) : TmGid :=
  if s.isDtxContext ∧ s.gxid ≠ 0 then dtxFormGID id s.distribTimeStamp s.gxid
  else ⟨List.replicate 22 0, rfl⟩

/-- `MAX_BACKENDS`, the largest number of entries `max_prepared_xacts` allows a snapshot. -/
def maxBackends : ℤ := 0x7fffff

/-- The snapshot a context is created from. Its distributed part has its entries in its array. -/
structure Snapshot where
  curcid : UInt32
  haveDistribSnapshot : Bool
  ds : DistributedSnapshot
  count_nonneg : 0 ≤ ds.count
  count_le : ds.count ≤ maxBackends
  entries : ds.count ≤ (ds.inProgressXidArray.getD []).length

namespace DtxContextInfo

/-- `DtxContextInfo_StaticInit`. -/
def staticInit : DtxContextInfo := ⟨0, 0, .init, false, false, .staticInit, 0, 0, 0, 0⟩

/-- `DtxContextInfo_Reset`: `cursorContext` stays. -/
def reset (c : DtxContextInfo) : Except DtxError DtxContextInfo := do
  let ds ← c.distributedSnapshot.reset
  return { c with
    distributedTimeStamp := 0
    distributedXid := 0
    distributedId := .init
    curcid := 0
    segmateSync := 0
    nestingLevel := 0
    haveDistributedSnapshot := false
    distributedSnapshot := ds
    distributedTxnOptions := 0 }

/-- What `DtxContextInfo_CreateOnMaster` takes from the transaction. -/
def identify (s : Session) (curcid : UInt32) (c : DtxContextInfo) : DtxContextInfo :=
  if getDistributedTransactionId s = 0 then { c with distributedXid := 0 }
  else { c with
    distributedXid := getDistributedTransactionId s
    distributedTimeStamp := s.dtxStartTime
    distributedId := getDistributedTransactionIdentifier s c.distributedId
    curcid := curcid }

/-- The distributed snapshot is taken when there is one. -/
def takeSnapshot (fresh : ℕ → UInt32) (c : DtxContextInfo) :
    Option Snapshot → Except DtxError DtxContextInfo
  | none => return c
  | some snapshot =>
    if snapshot.haveDistribSnapshot then do
      let ds ← c.distributedSnapshot.copy fresh snapshot.ds
      return { c with distributedSnapshot := ds, haveDistributedSnapshot := true }
    else return c

/-- `DtxContextInfo_CreateOnMaster`, with the session's `syncCount`. -/
def createOnMaster (c : DtxContextInfo) (s : Session) (fresh : ℕ → UInt32) (syncCount : UInt32)
    (inCursor : Bool) (txnOptions : UInt32) (snapshot : Option Snapshot) :
    Except DtxError (DtxContextInfo × UInt32) := do
  let curcid := (snapshot.map Snapshot.curcid).getD 0
  let c ← c.reset
  let syncCount := if inCursor then syncCount else syncCount + 1
  if syncCount = 2 ^ 32 - 1 then throw .tooManyCommands
  let c ← takeSnapshot fresh { c.identify s curcid with
    segmateSync := syncCount
    cursorContext := inCursor
    nestingLevel := s.nestLevel
    haveDistributedSnapshot := false } snapshot
  return ({ c with distributedTxnOptions := txnOptions }, syncCount)

/-- `DtxContextInfo_SerializeSize`, an `int`. -/
def serializeSize (c : DtxContextInfo) : ℤ :=
  (4 + (if c.distributedXid = 0 then 0 else 4 + 22 + 4) + (4 + 4 + 1 + 1) +
    (if c.haveDistributedSnapshot then c.distributedSnapshot.serializeSize else 0) + 4).bmod
    (2 ^ 32)

def boolByte (b : Bool) : List UInt8 := [if b then 1 else 0]

/-- The part of the message about the transaction. -/
def identityBytes (c : DtxContextInfo) : List UInt8 :=
  if c.distributedXid = 0 then []
  else word c.distributedTimeStamp ++ c.distributedId.bytes ++ word c.curcid

def snapshotBytes (c : DtxContextInfo) : List UInt8 :=
  if c.haveDistributedSnapshot then c.distributedSnapshot.serialize else []

/-- The message of a context. -/
def message (c : DtxContextInfo) : List UInt8 :=
  word c.distributedXid ++ c.identityBytes ++ word c.segmateSync ++ word c.nestingLevel ++
    boolByte c.haveDistributedSnapshot ++ boolByte c.cursorContext ++ c.snapshotBytes ++
    word c.distributedTxnOptions

/-- `DtxContextInfo_Serialize`. The identifier is too long when it has no terminator. -/
def serialize (c : DtxContextInfo) : Except DtxError (List UInt8) :=
  if c.distributedXid ≠ 0 ∧ 0 ∉ c.distributedId.bytes then throw .identifierTooLong
  else return c.message

/-- That part is read, with the bytes consumed. -/
def readIdentity (buf : ℕ → UInt8) (off : ℕ) (c : DtxContextInfo) :
    Except DtxError (ℕ × DtxContextInfo) :=
  if c.distributedXid = 0 then return (0, c)
  else
    let id : TmGid := ⟨readBytes buf (off + 4) 22, length_readBytes _ _ _⟩
    if 0 ∉ id.bytes then throw .identifierTooLong
    else return (30, { c with
      distributedTimeStamp := wordAt buf off
      distributedId := id
      curcid := wordAt buf (off + 26) })

/-- The snapshot in the message, with the bytes consumed. -/
def readSnapshot (fresh : ℕ → UInt32) (buf : ℕ → UInt8) (off : ℕ) (c : DtxContextInfo) :
    Except DtxError (ℕ × DistributedSnapshot) :=
  if c.haveDistributedSnapshot then c.distributedSnapshot.deserialize fresh buf off
  else return (0, c.distributedSnapshot)

/-- `DtxContextInfo_Deserialize`, with the bytes consumed. -/
def deserialize (fresh : ℕ → UInt32) (buf : ℕ → UInt8) (len : ℕ) (c : DtxContextInfo) :
    Except DtxError (ℕ × DtxContextInfo) := do
  let c ← c.reset
  if len = 0 then return (0, c)
  let (n, c) ← readIdentity buf 4 { c with distributedXid := wordAt buf 0 }
  let p := 4 + n
  let c := { c with
    segmateSync := wordAt buf p
    nestingLevel := wordAt buf (p + 4)
    haveDistributedSnapshot := buf (p + 8) != 0
    cursorContext := buf (p + 9) != 0 }
  let (n, ds) ← readSnapshot fresh buf (p + 10) c
  let p := p + 10 + n
  return (p + 4, { c with
    distributedSnapshot := ds
    distributedTxnOptions := wordAt buf p })

/-- The snapshot of a copy. -/
def copySnapshot (fresh : ℕ → UInt32) (target source : DtxContextInfo) :
    Except DtxError DistributedSnapshot :=
  if source.haveDistributedSnapshot
  then target.distributedSnapshot.copy fresh source.distributedSnapshot
  else return target.distributedSnapshot

/-- `DtxContextInfo_Copy`. -/
def copy (fresh : ℕ → UInt32) (target source : DtxContextInfo) :
    Except DtxError DtxContextInfo := do
  let target ← target.reset
  let ds ← copySnapshot fresh target source
  return { target with
    distributedTimeStamp := source.distributedTimeStamp
    distributedXid := source.distributedXid
    distributedId := source.distributedId
    segmateSync := source.segmateSync
    nestingLevel := source.nestingLevel
    curcid := source.curcid
    haveDistributedSnapshot := source.haveDistributedSnapshot
    cursorContext := source.cursorContext
    distributedSnapshot := ds
    distributedTxnOptions := source.distributedTxnOptions }

end DtxContextInfo

/-! ## Runs -/

/-- The structures that are used again: the dispatcher's, with its counter, and the receiver's. -/
structure Contexts where
  qd : DtxContextInfo
  syncCount : UInt32
  qe : DtxContextInfo

def Contexts.start : Contexts := ⟨.staticInit, 1, .staticInit⟩

inductive Call where
  | createOnMaster (s : Session) (fresh : ℕ → UInt32) (inCursor : Bool) (txnOptions : UInt32)
      (snapshot : Option Snapshot)
  /-- The context is serialized, and read into the receiver's structure. -/
  | dispatch (fresh : ℕ → UInt32)
  | copy (fresh : ℕ → UInt32)

def call (ctxs : Contexts) : Call → Except DtxError Contexts
  | .createOnMaster s fresh inCursor txnOptions snapshot => do
    let (qd, syncCount) ←
      ctxs.qd.createOnMaster s fresh ctxs.syncCount inCursor txnOptions snapshot
    return { ctxs with qd := qd, syncCount := syncCount }
  | .dispatch fresh => do
    let bytes ← ctxs.qd.serialize
    let (_, qe) ← ctxs.qe.deserialize fresh (fun i => bytes.getD i 0) bytes.length
    return { ctxs with qe := qe }
  | .copy fresh => do
    let qe ← ctxs.qe.copy fresh ctxs.qd
    return { ctxs with qe := qe }

/-- A call that raises an error ends the run. -/
def step (ctxs : Contexts) (c : Call) : Option Contexts := (call ctxs c).toOption

end Hdb.DtxContext
