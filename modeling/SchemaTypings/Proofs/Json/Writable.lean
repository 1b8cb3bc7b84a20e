/-
  SchemaTypings.Proofs.Json.Writable

  Values without integers of too many digits.  What is inside such a value is one itself, and the
  integers just past the limit show that there are others.
-/
import SchemaTypings.Json.Basic
import Mathlib.Algebra.Order.Group.Unbundled.Int
import Mathlib.Tactic.Positivity

namespace SchemaTypings.Json

/-! ## Integers -/

theorem isWritable_int_iff {n : Int} :
    (Json.int n).isWritable = true ↔ n.natAbs < 10 ^ maxIntegerDigits := by
  rw [isWritable, Nat.pow_eq, decide_eq_true_iff]

theorem isWritable_int_of_lt {n : Int} (h : n.natAbs < 10) : (Json.int n).isWritable = true :=
  isWritable_int_iff.mpr (h.trans_le (Nat.le_self_pow (by decide) 10))

theorem not_isWritable_int_of_le {n : Int} (h : 10 ^ maxIntegerDigits ≤ n.natAbs) :
    (Json.int n).isWritable = false :=
  Bool.eq_false_iff.mpr fun hwritable => Nat.not_lt.mpr h (isWritable_int_iff.mp hwritable)

theorem natAbs_ten_pow (k : Nat) : ((10 : Int) ^ k).natAbs = 10 ^ k := Int.natAbs_pow 10 k

/-- The least integer with too many digits. -/
theorem not_isWritable_pow : (Json.int (10 ^ maxIntegerDigits)).isWritable = false :=
  not_isWritable_int_of_le (natAbs_ten_pow _).ge

theorem allWritable_iff {items : List Json} :
    allWritable items = true ↔ ∀ item ∈ items, item.isWritable = true := by
  induction items with
  | nil => simp [allWritable]
  | cons item rest ih => rw [allWritable, Bool.and_eq_true, ih, List.forall_mem_cons]

theorem entriesWritable_iff {entries : Entries Json} :
    entriesWritable entries = true ↔ ∀ e ∈ entries, e.2.isWritable = true := by
  induction entries with
  | nil => simp [entriesWritable]
  | cons e rest ih => rw [entriesWritable, Bool.and_eq_true, ih, List.forall_mem_cons, entryWritable]

theorem isWritable_arr_iff {items : List Json} :
    (Json.arr items).isWritable = true ↔ ∀ item ∈ items, item.isWritable = true := by
  rw [isWritable, allWritable_iff]

theorem isWritable_obj_iff {entries : Entries Json} :
    (Json.obj entries).isWritable = true ↔ ∀ e ∈ entries, e.2.isWritable = true := by
  rw [isWritable, entriesWritable_iff]

end SchemaTypings.Json
