import Embedjson.Foundations.Bytes
import Mathlib.Data.List.GetD

/-! Stacks of Booleans packed into bytes, the least significant bit of a byte first. -/

namespace Embedjson.Foundations.BitStack

def mask (k : Fin 8) : UInt8 := 1 <<< UInt8.ofNat k

def place (i : ℕ) : Fin 8 := ⟨i % 8, Nat.mod_lt _ (by decide)⟩

def bit (bytes : List UInt8) (i : ℕ) : Bool := bytes.getD (i / 8) 0 &&& mask (place i) ≠ 0

def writeByte (byte : UInt8) (k : Fin 8) (value : Bool) : UInt8 :=
  if value then byte ||| mask k else byte &&& ~~~mask k

def write (bytes : List UInt8) (i : ℕ) (value : Bool) : List UInt8 :=
  bytes.set (i / 8) (writeByte (bytes.getD (i / 8) 0) (place i) value)

def contents (bytes : List UInt8) : ℕ → List Bool
  | 0 => []
  | n + 1 => bit bytes n :: contents bytes n

lemma and_or_byte (a b c : UInt8) : (a ||| b) &&& c = (a &&& c) ||| (b &&& c) :=
  UInt8.toBitVec_inj.mp BitVec.and_or_distrib_right

lemma mask_ne_zero (k : Fin 8) : mask k ≠ 0 := by
  revert k
  decide

lemma mask_and_mask {j k : Fin 8} (h : j ≠ k) : mask k &&& mask j = 0 := by
  revert j k
  decide

lemma not_mask_and_mask {j k : Fin 8} (h : j ≠ k) : ~~~mask k &&& mask j = mask j := by
  revert j k
  decide

lemma writeByte_same (byte : UInt8) (k : Fin 8) (value : Bool) :
    decide (writeByte byte k value &&& mask k ≠ 0) = value := by
  cases value with
  | false => simp [writeByte, UInt8.and_assoc]
  | true =>
    have hk : (byte &&& mask k) ||| mask k = mask k := by
      apply UInt8.toBitVec_inj.mp
      ext i
      simp
    simp [writeByte, and_or_byte, hk, mask_ne_zero]

lemma writeByte_other (byte : UInt8) {j k : Fin 8} (h : j ≠ k) (value : Bool) :
    writeByte byte k value &&& mask j = byte &&& mask j := by
  cases value with
  | false => simp [writeByte, UInt8.and_assoc, not_mask_and_mask h]
  | true => simp [writeByte, and_or_byte, mask_and_mask h]

lemma bit_write_same {bytes : List UInt8} {i : ℕ} (h : i / 8 < bytes.length) (value : Bool) :
    bit (write bytes i value) i = value := by
  rw [bit, write, List.getD_eq_getElem?_getD, List.getElem?_set_self h]
  exact writeByte_same _ _ value

lemma bit_write_other (bytes : List UInt8) {i j : ℕ} (h : i ≠ j) (value : Bool) :
    bit (write bytes i value) j = bit bytes j := by
  by_cases hd : i / 8 = j / 8
  · have hk : place j ≠ place i := by
      intro hp
      have hm : j % 8 = i % 8 := congrArg Fin.val hp
      omega
    by_cases hl : i / 8 < bytes.length
    · rw [bit, bit, write, List.getD_eq_getElem?_getD, ← hd, List.getElem?_set_self hl,
        Option.getD_some, writeByte_other _ hk]
    · rw [write, List.set_eq_of_length_le (by omega)]
  · rw [bit, bit, write, List.getD_eq_getElem?_getD, List.getElem?_set_ne hd,
      List.getD_eq_getElem?_getD]

@[simp] lemma length_contents (bytes : List UInt8) (n : ℕ) : (contents bytes n).length = n := by
  induction n with
  | zero => rfl
  | succ n ih => rw [contents, List.length_cons, ih]

@[simp] lemma length_write (bytes : List UInt8) (i : ℕ) (value : Bool) :
    (write bytes i value).length = bytes.length := by
  simp [write]

lemma contents_write (bytes : List UInt8) {i n : ℕ} (h : n ≤ i) (value : Bool) :
    contents (write bytes i value) n = contents bytes n := by
  induction n with
  | zero => rfl
  | succ n ih => rw [contents, contents, ih (by omega), bit_write_other _ (by omega)]

lemma contents_push {bytes : List UInt8} {n : ℕ} (h : n / 8 < bytes.length) (value : Bool) :
    contents (write bytes n value) (n + 1) = value :: contents bytes n := by
  rw [contents, bit_write_same h, contents_write bytes le_rfl]

lemma contents_append (bytes more : List UInt8) {n : ℕ} (h : n ≤ 8 * bytes.length) :
    contents (bytes ++ more) n = contents bytes n := by
  induction n with
  | zero => rfl
  | succ n ih =>
    rw [contents, contents, ih (by omega), bit, bit, List.getD_append _ _ _ _ (by omega)]

end Embedjson.Foundations.BitStack
