import Mathlib.Data.Finset.Interval
import Mathlib.Data.Finset.Sort
import Mathlib.Order.Interval.Finset.Nat
import Hdb.Lib.Run

/-!
# The strings of cores

A set of cores is kept as a string such as `1,3-5`. `CpusetToBitset` reads it with a scanner of five
states and two numbers, and `BitsetToCpuset` prints a set into a buffer, one run of neighbours after
the other, and stops where the buffer is full. The numbers are of type `int` and wrap, also the one
that `bms_next_member` is given to go on from.

The grammar of the strings is stated apart from the scanner, as items between commas (`Reads`) and
the set they denote together (`Denotes`).
-/

namespace Hdb.Cpuset

/-- An `int`, which wraps. -/
@[irreducible] def toInt (x : ℤ) : ℤ := x.bmod (2 ^ 32)

def intMax : ℤ := 2 ^ 31 - 1

/-- A scan that stops returns `NULL`, or raises "negative bitmapset member not allowed". -/
inductive Stop where
  | null
  | negativeMember
  deriving DecidableEq

inductive Status where
  | initial
  | begin
  | number
  | interval
  | number2
  deriving DecidableEq

structure Scanner where
  s : Status
  num1 : ℤ
  num2 : ℤ
  bms : Finset ℕ

def Scanner.start : Scanner := ⟨.initial, 0, 0, ∅⟩

/-- `bms_union` with `bms_make_singleton`. -/
def addMember (bms : Finset ℕ) (x : ℤ) : Except Stop (Finset ℕ) :=
  if x < 0 then .error .negativeMember else .ok (insert x.toNat bms)

/-- The values of the loop from `num1` to `num2`: behind the largest `int` it goes on with the
smallest one. -/
def loopValues (num1 num2 : ℤ) : List ℤ :=
  (List.range (num2 + 1 - num1).toNat).map (fun i : ℕ => num1 + i) ++
    if num2 = intMax then [-2 ^ 31] else []

def addInterval (bms : Finset ℕ) (num1 num2 : ℤ) : Except Stop (Finset ℕ) :=
  if num1 > num2 then .error .null else (loopValues num1 num2).foldlM addMember bms

def digit (c : Char) : ℤ := ((c.toNat - '0'.toNat : ℕ) : ℤ)

/-- A digit, once the status is the one of the number it belongs to. -/
def Scanner.addDigit (st : Scanner) (c : Char) : Scanner :=
  match st.s with
  | .number => { st with num1 := toInt (st.num1 * 10 + digit c) }
  | .number2 => { st with num2 := toInt (st.num2 * 10 + digit c) }
  | _ => st

/-- One character of the text. -/
def scanChar (st : Scanner) (c : Char) : Except Stop Scanner :=
  if c = ',' then
    match st.s with
    | .initial | .begin => .ok st
    | .interval => .error .null
    | .number => do
      let bms ← addMember st.bms st.num1
      return { st with bms := bms, num1 := 0, s := .begin }
    | .number2 => do
      let bms ← addInterval st.bms st.num1 st.num2
      return { st with bms := bms, num1 := 0, num2 := 0, s := .begin }
  else if c = '-' then
    if st.s = .number then .ok { st with s := .interval } else .error .null
  else if c.isDigit then
    match st.s with
    | .initial | .begin => .ok (Scanner.addDigit { st with s := .number } c)
    | .interval => .ok (Scanner.addDigit { st with s := .number2 } c)
    | .number | .number2 => .ok (st.addDigit c)
  else .error .null

/-- The end of the text. -/
def scanEnd (st : Scanner) : Except Stop (Finset ℕ) :=
  match st.s with
  | .number => addMember st.bms st.num1
  | .number2 => addInterval st.bms st.num1 st.num2
  | .initial | .interval => .error .null
  | .begin => .ok st.bms

/-- What is scanned of a string: `len` characters, up to a terminator or a newline. -/
def cpusetText (cpuset : List Char) (len : ℕ) : List Char :=
  (cpuset.take len).takeWhile fun c => c.toNat ≠ 0 ∧ c ≠ '\n'

def scan (text : List Char) : Except Stop (Finset ℕ) := do
  let st ← text.foldlM scanChar .start
  scanEnd st

/-- `CpusetToBitset`. -/
def cpusetToBitset (cpuset : List Char) (len : ℕ) : Except Stop (Finset ℕ) :=
  scan (cpusetText cpuset len)

/-! ## Printing -/

/-- `%d` of a core, or `%d-%d` of a run of cores. -/
def printRun (intervalStart lastContinuousBit : ℕ) : List Char :=
  if intervalStart = lastContinuousBit then Nat.toDigits 10 intervalStart
  else Nat.toDigits 10 intervalStart ++ '-' :: Nat.toDigits 10 lastContinuousBit

/-- The text in the buffer when the printer is done, or when it has come to the member 2^31-1 and
`bms_next_member` reads words before those of the set. -/
inductive Printed where
  | done (cpuset : List Char)
  | astray (cpuset : List Char)
  deriving DecidableEq

def Printed.cpuset : Printed → List Char
  | .done cpuset | .astray cpuset => cpuset

/-- The loop over the members, with the text so far and the run at hand. -/
def printFrom (cpusetSize : ℕ) (cpuset : List Char) (intervalStart lastContinuousBit : ℕ) :
    List ℕ → Printed
  | [] =>
    if (lastContinuousBit : ℤ) = intMax then .astray cpuset
    else
      let buffer := printRun intervalStart lastContinuousBit
      if cpuset.length + buffer.length ≥ cpusetSize then .done cpuset else .done (cpuset ++ buffer)
  | num :: members =>
    if num ≠ lastContinuousBit + 1 then
      let buffer := printRun intervalStart lastContinuousBit ++ [',']
      if cpuset.length + buffer.length ≥ cpusetSize then .done cpuset
      else printFrom cpusetSize (cpuset ++ buffer) num num members
    else printFrom cpusetSize cpuset intervalStart num members

/-- `BitsetToCpuset`. -/
def bitsetToCpuset (bms : Finset ℕ) (cpusetSize : ℕ) : Printed :=
  match bms.sort (· ≤ ·) with
  | [] => .done []
  | num :: members => printFrom cpusetSize [] num num members

/-- The bytes `BitsetToCpuset` writes: the text and its terminator, and first an empty text. -/
def written (bms : Finset ℕ) (cpusetSize : ℕ) : List ℕ :=
  0 :: List.range ((bitsetToCpuset bms cpusetSize).cpuset.length + 1)

/-- A string that is not of the grammar is read as the empty set. -/
def orEmpty : Except Stop (Finset ℕ) → Except Stop (Finset ℕ)
  | .error .null => .ok ∅
  | r => r

def maxCpuSetLength : ℕ := 1024

/-- The core that is left when none is: the first one of the system's cpuset. -/
def defaultCore (system : List Char) : Except Stop (List Char) := do
  let bmsDefault ← orEmpty (cpusetToBitset system maxCpuSetLength)
  match bmsDefault.sort (· ≤ ·) with
  | [] => return ['-', '1']
  | core :: _ => return Nat.toDigits 10 core

/-- `cpusetOperation`: what is left in the first string. -/
def cpusetOperation (system cpuset1 cpuset2 : List Char) (len : ℕ) (sub : Bool) :
    Except Stop Printed := do
  let bms1 ← orEmpty (cpusetToBitset cpuset1 len)
  let bms2 ← orEmpty (cpusetToBitset cpuset2 len)
  let bms := if sub then bms1 \ bms2 else bms1 ∪ bms2
  if bms = ∅ then return .done (← defaultCore system) else return bitsetToCpuset bms len

/-! ## The grammar -/

/-- What stands between two commas. -/
inductive Item where
  | empty
  | number (n : ℕ)
  | interval (a b : ℕ)
  deriving DecidableEq

def value (ds : List Char) : ℕ := Nat.ofDigitChars 10 ds 0

/-- The text of an item. -/
inductive Reads : List Char → Item → Prop where
  | empty : Reads [] .empty
  | number {ds : List Char} : ds ≠ [] → (∀ c ∈ ds, c.isDigit) → Reads ds (.number (value ds))
  | interval {ds es : List Char} : ds ≠ [] → (∀ c ∈ ds, c.isDigit) → es ≠ [] →
    (∀ c ∈ es, c.isDigit) → Reads (ds ++ '-' :: es) (.interval (value ds) (value es))

/-- The cores of an item. -/
def Item.cores : Item → Finset ℕ
  | .empty => ∅
  | .number n => {n}
  | .interval a b => Finset.Icc a b

/-- An interval is from a smaller to a larger number. -/
def Item.Ordered : Item → Prop
  | .interval a b => a ≤ b
  | _ => True

/-- The text denotes the set: it is made of items, and the set is that of their cores. A text
without any core denotes nothing. -/
def Denotes (text : List Char) (cores : Finset ℕ) : Prop :=
  ∃ items : List Item, List.Forall₂ Reads (text.splitOn ',') items ∧
    (∀ it ∈ items, it.Ordered) ∧ cores = items.toFinset.biUnion Item.cores ∧ cores.Nonempty

end Hdb.Cpuset
