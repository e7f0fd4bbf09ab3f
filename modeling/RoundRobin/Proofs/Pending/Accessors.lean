import RoundRobin.Proofs.Pending.Seeding

/-!
# Reading and writing a pending point

Each accessor of a point is one cell operation: the two writes
(`PendingPoint.setValue_runOn`, `setCount_runOn`, stated with seeding) and
the read of the count (`count_runOn_eq`). The count is refused from `2 ^ 63`
on before anything is written, and a stored count reads back as a failure
when its eight bytes are a negative 64-bit integer, any failure of the read
itself passing through as it is.

In a memory store every cell that ends within 64-bit offsets takes a write,
so the accessors round-trip (`accessors_round_trip`): a value reads back with
its bits, a count from `0` to `2 ^ 63 - 1` reads back as itself, and the
other cell of the point reads as before when it lay within the store. A cell
past the end of the store is no such cell: a write to the other cell fills
the gap with zeros, which it then reads
(`set_fills_count_and_refuses_overflow`).
-/

namespace RoundRobin

namespace PendingPoint

-- ---------------------------------------------------------------------------
-- The accessors of a point
-- ---------------------------------------------------------------------------

theorem value_runOn (p : PendingPoint) (s : ByteStore) :
    p.value.runOn s = (s.readDouble p.valueCell, s) :=
  StoreM.readDouble_runOn _ _

/-- Reading the count: the read's failure as it is, a failure for a negative
stored integer, and the integer otherwise. The store stays. -/
theorem count_runOn_eq (p : PendingPoint) (s : ByteStore) :
    p.count.runOn s = (match s.readLong p.countCell with
      | .error e => .error e
      | .ok n => if n < 0 then .error (.invalidValue s!"negative unknown step count {n}")
        else .ok n.toNat, s) := by
  unfold count
  rcases h : s.readLong p.countCell with e | n
  · exact StoreM.runOn_bind_error ((StoreM.readLong_runOn _ _).trans (by rw [h]))
  · rw [StoreM.runOn_bind_ok ((StoreM.readLong_runOn _ _).trans (by rw [h]))]
    dsimp only
    split <;> rfl

-- ---------------------------------------------------------------------------
-- Round trips in a memory store
-- ---------------------------------------------------------------------------

variable {p : PendingPoint} {s : ByteStore}

theorem count_congr {s' : ByteStore} (h : s'.read p.countCell cellSize = s.read p.countCell cellSize) :
    (p.count.runOn s').1 = (p.count.runOn s).1 := by
  rw [count_runOn_eq, count_runOn_eq]
  simp only [ByteStore.readLong, h]

theorem value_congr {s' : ByteStore} (h : s'.read p.valueCell cellSize = s.read p.valueCell cellSize) :
    (p.value.runOn s').1 = (p.value.runOn s).1 := by
  rw [value_runOn, value_runOn]
  simp only [ByteStore.readDouble, h]

theorem setValue_round_trip (hmem : s.backing = .memory) (hapart : Apart p.valueCell p.countCell)
    (hfit : p.valueCell + cellSize ≤ ByteStore.offsetMax) (x : Binary64) :
    ∃ s', (p.setValue x).runOn s = (.ok (), s') ∧ (p.value.runOn s').1 = .ok x ∧
      (p.countCell + cellSize ≤ s.size → (p.count.runOn s').1 = (p.count.runOn s).1) := by
  refine ⟨_, by rw [setValue_runOn, ByteStore.writeDouble_memory hmem hfit], ?_, fun hin => ?_⟩
  · rw [value_runOn]
    exact ByteStore.readDouble_of_read
      (ByteStore.read_put_self (length_bigEndian _ _) (ByteStore.seekable_of_memory hmem _))
  · exact count_congr (ByteStore.read_put_of_apart (length_bigEndian _ _) hin hapart)

theorem setCount_round_trip (hmem : s.backing = .memory) (hapart : Apart p.valueCell p.countCell)
    (hfit : p.countCell + cellSize ≤ ByteStore.offsetMax) {n : Nat} (hn : (n : Int) ≤ Signed64.max) :
    ∃ s', (p.setCount n).runOn s = (.ok (), s') ∧ (p.count.runOn s').1 = .ok n ∧
      (p.valueCell + cellSize ≤ s.size → (p.value.runOn s').1 = (p.value.runOn s).1) := by
  have hlo : Signed64.min ≤ (n : Int) := Int.le_trans (by decide) (Int.natCast_nonneg n)
  refine ⟨_, by rw [setCount_runOn, if_pos hn, ByteStore.writeLong_memory hmem hfit], ?_, fun hin => ?_⟩
  · rw [count_runOn (ByteStore.readLong_of_read hlo hn
      (ByteStore.read_put_self (length_bigEndian _ _) (ByteStore.seekable_of_memory hmem _)))]
  · exact value_congr (ByteStore.read_put_of_apart (length_bigEndian _ _) hin hapart.symm)

theorem count_invalid_iff (hmem : s.backing = .memory) :
    (∃ m, (p.count.runOn s).1 = .error (.invalidValue m)) ↔
      ∃ bs, s.read p.countCell cellSize = .ok bs ∧ ByteStore.signedOf (ofBigEndian bs) < 0 := by
  rw [count_runOn_eq]
  rcases h : s.read p.countCell cellSize with e | bs
  · have hl : s.readLong p.countCell = .error e := by rw [ByteStore.readLong, h]; rfl
    rw [hl, ByteStore.read_memory_error hmem h]
    constructor
    · rintro ⟨m, hm⟩
      cases hm
    · rintro ⟨bs, hbs, -⟩
      cases hbs
  · have hl : s.readLong p.countCell = .ok (ByteStore.signedOf (ofBigEndian bs)) := by
      rw [ByteStore.readLong, h]; rfl
    rw [hl]
    dsimp only
    split
    · next hneg => exact ⟨fun _ => ⟨bs, rfl, hneg⟩, fun _ => ⟨_, rfl⟩⟩
    · next hneg =>
      constructor
      · rintro ⟨m, hm⟩
        cases hm
      · rintro ⟨bs', hbs', hlt⟩
        cases hbs'
        exact absurd hlt hneg

theorem count_of_read_error {e : StoreError} (h : s.read p.countCell cellSize = .error e) :
    (p.count.runOn s).1 = .error e := by
  have hl : s.readLong p.countCell = .error e := by rw [ByteStore.readLong, h]; rfl
  rw [count_runOn_eq, hl]

-- ---------------------------------------------------------------------------
-- The accessor laws
-- ---------------------------------------------------------------------------

/-- The accessors of a point over a memory store, for two cells apart that
both end within 64-bit offsets, whatever the store holds. A value written
reads back with its bits, and the count reads as before when its cell lay
within the store. A count is taken exactly when it is at most `2 ^ 63 - 1`,
and then reads back as itself while the value reads as before when its cell
lay within the store; a larger count is refused with the store as it was.
The count fails as invalid exactly when its cell holds a negative 64-bit
integer, and passes any failure of the read through as it is. -/
theorem accessors_round_trip (hmem : s.backing = .memory) (hapart : Apart p.valueCell p.countCell)
    (hvalue : p.valueCell + cellSize ≤ ByteStore.offsetMax)
    (hcount : p.countCell + cellSize ≤ ByteStore.offsetMax) :
    (∀ x : Binary64, ∃ s', (p.setValue x).runOn s = (.ok (), s') ∧ (p.value.runOn s').1 = .ok x ∧
      (p.countCell + cellSize ≤ s.size → (p.count.runOn s').1 = (p.count.runOn s).1)) ∧
    (∀ n : Nat, ((p.setCount n).runOn s).1 = .ok () ↔ (n : Int) ≤ Signed64.max) ∧
    (∀ n : Nat, (n : Int) ≤ Signed64.max → ∃ s', (p.setCount n).runOn s = (.ok (), s') ∧
      (p.count.runOn s').1 = .ok n ∧
      (p.valueCell + cellSize ≤ s.size → (p.value.runOn s').1 = (p.value.runOn s).1)) ∧
    (∀ n : Nat, Signed64.max < n →
      (p.setCount n).runOn s = (.error (.invalidValue s!"unknown step count {n} too large"), s)) ∧
    ((∃ m, (p.count.runOn s).1 = .error (.invalidValue m)) ↔
      ∃ bs, s.read p.countCell cellSize = .ok bs ∧ ByteStore.signedOf (ofBigEndian bs) < 0) ∧
    (∀ e, s.read p.countCell cellSize = .error e → (p.count.runOn s).1 = .error e) := by
  have hlarge : ∀ n : Nat, Signed64.max < n →
      (p.setCount n).runOn s = (.error (.invalidValue s!"unknown step count {n} too large"), s) :=
    fun n hn => by rw [setCount_runOn, if_neg (Int.not_le.mpr hn)]
  refine ⟨setValue_round_trip hmem hapart hvalue, fun n => ⟨fun hok => ?_, fun hn => ?_⟩,
    fun n hn => setCount_round_trip hmem hapart hcount hn, hlarge, count_invalid_iff hmem,
    fun e he => count_of_read_error he⟩
  · -- a count past the range is refused, so one that is taken is in range
    refine Int.not_lt.mp fun hn => ?_
    rw [hlarge n hn] at hok
    cases hok
  · obtain ⟨s', hrun, -⟩ := setCount_round_trip hmem hapart hcount hn
    rw [hrun]

/-- The laws at the first two cells of an empty memory store. -/
theorem accessors_round_trip_at_start :
    let p : PendingPoint := ⟨0, 8⟩
    let s : ByteStore := ⟨.memory, []⟩
    s.backing = .memory ∧ Apart p.valueCell p.countCell ∧
    p.valueCell + cellSize ≤ ByteStore.offsetMax ∧ p.countCell + cellSize ≤ ByteStore.offsetMax ∧
    ((∀ x : Binary64, ∃ s', (p.setValue x).runOn s = (.ok (), s') ∧ (p.value.runOn s').1 = .ok x ∧
      (p.countCell + cellSize ≤ s.size → (p.count.runOn s').1 = (p.count.runOn s).1)) ∧
    (∀ n : Nat, ((p.setCount n).runOn s).1 = .ok () ↔ (n : Int) ≤ Signed64.max) ∧
    (∀ n : Nat, (n : Int) ≤ Signed64.max → ∃ s', (p.setCount n).runOn s = (.ok (), s') ∧
      (p.count.runOn s').1 = .ok n ∧
      (p.valueCell + cellSize ≤ s.size → (p.value.runOn s').1 = (p.value.runOn s).1)) ∧
    (∀ n : Nat, Signed64.max < n →
      (p.setCount n).runOn s = (.error (.invalidValue s!"unknown step count {n} too large"), s)) ∧
    ((∃ m, (p.count.runOn s).1 = .error (.invalidValue m)) ↔
      ∃ bs, s.read p.countCell cellSize = .ok bs ∧ ByteStore.signedOf (ofBigEndian bs) < 0) ∧
    (∀ e, s.read p.countCell cellSize = .error e → (p.count.runOn s).1 = .error e)) :=
  ⟨rfl, .inl (by decide), by decide, by decide,
    accessors_round_trip rfl (.inl (by decide)) (by decide) (by decide)⟩

/-- Where the round trip stops. Over an empty memory store, a point whose
count cell comes before its value cell cannot read its count; writing the
value fills the count cell with zeros, so the count then reads zero. A
cell that ends past the largest 64-bit offset takes no write, whatever the
value or count. -/
theorem set_fills_count_and_refuses_overflow :
    let s : ByteStore := ⟨.memory, []⟩
    let p : PendingPoint := ⟨8, 0⟩
    let x : Binary64 := ⟨0x3ff8000000000000⟩
    (p.count.runOn s).1 = .error (.outOfBounds 0 8 0) ∧
      (p.count.runOn ((p.setValue x).runOn s).2).1 = .ok 0 ∧
      ((⟨0, 18446744073709551615⟩ : PendingPoint).setCount 0).runOn s =
        (.error (.invalidValue "write at offset 18446744073709551615 overflows"), s) ∧
      ((⟨18446744073709551615, 0⟩ : PendingPoint).setValue x).runOn s =
        (.error (.invalidValue "write at offset 18446744073709551615 overflows"), s) := by
  decide

end PendingPoint

end RoundRobin
