import Mathlib.Algebra.Order.Group.Nat
import Mathlib.Data.Fin.VecNotation

/-!
# The shared header

The constants, records and fixed-point conversions of `common_kern_user.h`, shared by the kernel
program and the user-space tools. Machine integers keep the widths of the header; a `fixed` is an
unsigned Q48.16 number.

* `FlowKey`, `DataPoint`, `Accounting`: the keys and values of the maps;
* `DtNode`, `DtTree`: the decision tree, over the length of its node array;
* `fixedFromUint`, `fixedToUint`, with **`toNat_fixedFromUint`** and `fixedToUint_fixedFromUint`.
-/

namespace XdpDetector

/-! ## The `#define`s -/

def fixedShift : ℕ := 16

def fixedScale : ℕ := 65536

def maxDtNodes : ℕ := 5000

def maxDtDepth : ℕ := 100

abbrev maxFeatures : ℕ := 6

def maxFlowSaved : ℕ := 10000

def featureFlowDuration : Fin maxFeatures := 0

def featureTotalFwdPacket : Fin maxFeatures := 1

def featureTotalLengthOfFwdPacket : Fin maxFeatures := 2

def featureFwdPacketLengthMax : Fin maxFeatures := 3

def featureFwdPacketLengthMin : Fin maxFeatures := 4

def featureFwdIatMin : Fin maxFeatures := 5

/-! ## The records -/

/-- `typedef __u64 fixed`. -/
abbrev Fixed : Type := UInt64

/-- `struct flow_key`: addresses in network order, ports in host order. -/
structure FlowKey where
  srcIp : UInt32
  srcPort : UInt16
  dstIp : UInt32
  dstPort : UInt16
  proto : UInt8
deriving DecidableEq, Repr

def FlowKey.zero : FlowKey := ⟨0, 0, 0, 0, 0⟩

/-- `data_point`: the statistics, features and label of a flow. -/
structure DataPoint where
  startTs : UInt64
  lastSeen : UInt64
  minIAT : UInt64
  totalPkts : UInt32
  maxPktLen : UInt32
  minPktLen : UInt32
  totalBytes : UInt32
  features : Fin maxFeatures → Fixed
  label : Int32

structure Accounting where
  timeIn : UInt64
  procTime : UInt64
  totalPkts : UInt32
  totalBytes : UInt32

def Accounting.zero : Accounting := ⟨0, 0, 0, 0⟩

structure DtNode where
  leftIdx : Int32
  rightIdx : Int32
  splitValue : Fixed
  featureIdx : Int32
  isLeaf : UInt32
  label : Int32
deriving DecidableEq, Repr

def DtNode.zero : DtNode := ⟨0, 0, 0, 0, 0, 0⟩

/-- `dt_tree` with a node array of length `cap`. -/
structure DtTree (cap : ℕ) where
  nodes : Fin cap → DtNode
  numNodes : UInt32
  minVals : Fin maxFeatures → Fixed
  maxVals : Fin maxFeatures → Fixed

def DtTree.zero (cap : ℕ) : DtTree cap := ⟨fun _ => DtNode.zero, 0, fun _ => 0, fun _ => 0⟩

/-! ## Fixed-point conversions -/

def fixedFromUint (value : UInt64) : Fixed := value <<< (UInt64.ofNat fixedShift)

def fixedToUint (value : Fixed) : UInt64 := value >>> (UInt64.ofNat fixedShift)

/-- **The integer part wraps at 48 bits.** -/
theorem toNat_fixedFromUint (v : UInt64) :
    (fixedFromUint v).toNat = v.toNat * fixedScale % 2 ^ 64 := by
  rw [fixedFromUint, UInt64.toNat_shiftLeft]
  simp [fixedShift, fixedScale, Nat.shiftLeft_eq]

theorem toNat_fixedFromUint_of_lt {v : UInt64} (hv : v.toNat < 2 ^ 48) :
    (fixedFromUint v).toNat = v.toNat * fixedScale := by
  rw [toNat_fixedFromUint, Nat.mod_eq_of_lt]
  unfold fixedScale
  omega

theorem fixedToUint_fixedFromUint {v : UInt64} (hv : v.toNat < 2 ^ 48) :
    fixedToUint (fixedFromUint v) = v := by
  apply UInt64.toNat_inj.mp
  rw [fixedToUint, UInt64.toNat_shiftRight, toNat_fixedFromUint_of_lt hv]
  simp [fixedShift, fixedScale, Nat.shiftRight_eq_div_pow]

end XdpDetector
