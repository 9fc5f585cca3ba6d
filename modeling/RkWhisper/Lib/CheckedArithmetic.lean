import Mathlib.Tactic
import RkWhisper.Lib.Exceptions

/-!
# Checked arithmetic

The operations of a language whose arithmetic on 64-bit words faults where it would wrap, and whose
slices fault outside of their data. A program is a `do` block over these; the lemmas say when an
operation goes through, and with what result on the naturals.
-/

namespace Checked

inductive Fault where
  | underflow
  | overflow
  | divisionByZero
  | outOfRange
deriving DecidableEq, Repr

def sub (a b : UInt64) : Except Fault UInt64 :=
  if b ≤ a then .ok (a - b) else .error .underflow

def add (a b : UInt64) : Except Fault UInt64 :=
  if a.toNat + b.toNat < 2 ^ 64 then .ok (a + b) else .error .overflow

def rem (a b : UInt64) : Except Fault UInt64 :=
  if b = 0 then .error .divisionByZero else .ok (a % b)

/-- `data[start..stop]`. -/
def slice {α : Type*} (data : List α) (start stop : Nat) : Except Fault (List α) :=
  if start ≤ stop ∧ stop ≤ data.length then .ok ((data.take stop).drop start)
  else .error .outOfRange

variable {α : Type} {a b : UInt64}

theorem sub_of_le (h : b.toNat ≤ a.toNat) : sub a b = .ok (a - b) :=
  if_pos (UInt64.le_iff_toNat_le.mpr h)

theorem sub_of_lt (h : a.toNat < b.toNat) : sub a b = .error .underflow := by
  apply if_neg
  rw [UInt64.le_iff_toNat_le]
  omega

theorem add_eq (a b : UInt64) : add a b =
    if a.toNat + b.toNat < 2 ^ 64 then .ok (a + b) else .error .overflow := rfl

theorem add_of_lt (h : a.toNat + b.toNat < 2 ^ 64) : add a b = .ok (a + b) := if_pos h

theorem rem_of_pos (h : 0 < b.toNat) : rem a b = .ok (a % b) := by
  apply if_neg
  rintro rfl
  exact absurd h (by decide)

theorem toNat_sub_of_le (h : b.toNat ≤ a.toNat) : (a - b).toNat = a.toNat - b.toNat :=
  UInt64.toNat_sub_of_le _ _ (UInt64.le_iff_toNat_le.mpr h)

theorem toNat_min (a b : UInt64) : (min a b).toNat = min a.toNat b.toNat := by
  have hmin : min a b = if a ≤ b then a else b := rfl
  rw [hmin, apply_ite UInt64.toNat, min_def]
  exact if_congr UInt64.le_iff_toNat_le rfl rfl

/-! ### Words as naturals

The same for words that a program keeps as naturals below `2 ^ 64`. -/

def subNat (a b : Nat) : Except Fault Nat := if b ≤ a then .ok (a - b) else .error .underflow

def addNat (a b : Nat) : Except Fault Nat :=
  if a + b < 2 ^ 64 then .ok (a + b) else .error .overflow

/-- `data[index]`. -/
def index {α : Type*} (data : List α) (index : Nat) : Except Fault α :=
  match data[index]? with
  | some x => .ok x
  | none => .error .outOfRange

/-- `data.drain(..stop)`: what it takes out, and what it leaves. -/
def drainTo {α : Type*} (data : List α) (stop : Nat) : Except Fault (List α × List α) :=
  if stop ≤ data.length then .ok (data.take stop, data.drop stop) else .error .outOfRange

theorem subNat_of_le {a b : Nat} (h : b ≤ a) : subNat a b = .ok (a - b) := if_pos h

theorem addNat_of_lt {a b : Nat} (h : a + b < 2 ^ 64) : addNat a b = .ok (a + b) := if_pos h

theorem index_of_getElem? {data : List α} {i : Nat} {x : α} (h : data[i]? = some x) :
    index data i = .ok x := by
  rw [index, h]

theorem drainTo_of_le {data : List α} {stop : Nat} (h : stop ≤ data.length) :
    drainTo data stop = .ok (data.take stop, data.drop stop) :=
  if_pos h

theorem slice_of_le {data : List α} {start stop : Nat} (hstart : start ≤ stop)
    (hstop : stop ≤ data.length) : slice data start stop = .ok ((data.take stop).drop start) :=
  if_pos ⟨hstart, hstop⟩

end Checked
