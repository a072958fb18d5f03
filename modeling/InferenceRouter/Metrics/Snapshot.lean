import InferenceRouter.Text.Fields

/-!
# The text of the counters

`Metrics::snapshot_string` (`metrics.cpp`) loads the seven counters and prints them into a
buffer of 256 characters with `snprintf`, which cuts what does not fit.  A counter of 64 bits
has at most 20 digits, so nothing is ever cut, and a reader of the text gets the seven values
back (`readLine_snapshotString`).
-/

namespace InferenceRouter.Metrics

/-- What `snapshot_string` loads. -/
structure Snapshot where
  accepted : UInt64
  completed : UInt64
  errored : UInt64
  dropped : UInt64
  inFlight : UInt64
  poolBorrows : UInt64
  poolCreates : UInt64

/-- `%llu`. -/
def llu (n : UInt64) : List Char := Fields.decimal n.toNat

/-- What `snprintf` leaves in a buffer of the given size, up to the terminating zero. -/
def snprintf (size : Nat) (text : List Char) : List Char := text.take (size - 1)

/-- `Metrics::snapshot_string`. -/
def snapshotString (m : Snapshot) : List Char :=
  snprintf 256 ("accepted=".toList ++ llu m.accepted ++ " completed=".toList ++ llu m.completed ++
    " errored=".toList ++ llu m.errored ++ " dropped=".toList ++ llu m.dropped ++
    " in_flight=".toList ++ llu m.inFlight ++ " pool_borrows=".toList ++ llu m.poolBorrows ++
    " pool_creates=".toList ++ llu m.poolCreates)

/-- The counters by their names in the text. -/
def Snapshot.fields (m : Snapshot) : List (String × Nat) :=
  [("accepted", m.accepted.toNat), ("completed", m.completed.toNat),
    ("errored", m.errored.toNat), ("dropped", m.dropped.toNat), ("in_flight", m.inFlight.toNat),
    ("pool_borrows", m.poolBorrows.toNat), ("pool_creates", m.poolCreates.toNat)]

theorem Snapshot.isKey_of_mem {m : Snapshot} {f : String × Nat} (h : f ∈ m.fields) :
    Fields.IsKey f.1 := by
  simp only [fields, List.mem_cons, List.not_mem_nil, or_false] at h
  rcases h with rfl | rfl | rfl | rfl | rfl | rfl | rfl <;> simp [Fields.IsKey]

theorem Snapshot.length_le_of_mem {m : Snapshot} {f : String × Nat} (h : f ∈ m.fields) :
    (Fields.decimal f.2).length ≤ 20 := by
  refine Fields.length_decimal_le (by decide) ?_
  have hbound : ∀ n : UInt64, n.toNat < 10 ^ 20 := by
    intro n
    have := n.toNat_lt
    omega
  simp only [fields, List.mem_cons, List.not_mem_nil, or_false] at h
  rcases h with rfl | rfl | rfl | rfl | rfl | rfl | rfl <;> exact hbound _

/-- The buffer holds the whole text. -/
theorem snapshotString_eq (m : Snapshot) : snapshotString m = Fields.line m.fields := by
  have hlength : (Fields.line m.fields).length ≤ 255 := by
    refine Nat.le_trans (Fields.length_line_le fun f hf => m.length_le_of_mem hf) ?_
    simp [Snapshot.fields]
  have htext : "accepted=".toList ++ llu m.accepted ++ " completed=".toList ++ llu m.completed ++
      " errored=".toList ++ llu m.errored ++ " dropped=".toList ++ llu m.dropped ++
      " in_flight=".toList ++ llu m.inFlight ++ " pool_borrows=".toList ++ llu m.poolBorrows ++
      " pool_creates=".toList ++ llu m.poolCreates = Fields.line m.fields := by
    simp [Fields.line, Snapshot.fields, Fields.field, llu, List.intercalate]
  rw [snapshotString, htext, snprintf, List.take_of_length_le hlength]

/-- A reader of the text gets the values back. -/
theorem readLine_snapshotString (m : Snapshot) :
    Fields.readLine (snapshotString m) = m.fields := by
  rw [snapshotString_eq]
  exact Fields.readLine_line (by simp [Snapshot.fields]) (fun f hf => m.isKey_of_mem hf)

end InferenceRouter.Metrics
