import RoundRobin.Proofs.Pending.Accessors

/-!
# Creating one pending point

Seeding a point with count `k` is two cell writes: the count, then NaN as the
value (`PendingPoint.seed_runOn`). The first failing write ends it with that
write's error, the store keeping what the writes before it did; nothing is
undone. Seeding cells a caller names first checks the timing and writes
nothing when it cannot seed (`PendingPoint.seedAt_runOn`).

Creating a point checks the timing before it takes any cell. In a memory
store whose next two cells end within 64-bit offsets it then always
succeeds: the allocator moves on by sixteen bytes, the count and then NaN
are placed on the two cells (`ByteStore.Placed`: every other byte stays,
a gap before them fills with zeros), and the point reads as NaN with its
count (`PendingPoint.create_footprint`).
-/

namespace RoundRobin

namespace ByteStore

/-- `s'` is `s` with `data` written at `o`: the data on its bytes, every other
byte of `s` as it was, zeros between the old end and `o`, and nothing past
both ends. -/
def Placed (s s' : ByteStore) (o : Nat) (data : List UInt8) : Prop :=
  s'.backing = s.backing ∧
    ∀ i, s'.bytes[i]? =
      if o ≤ i ∧ i < o + data.length then data[i - o]?
      else if i < s.size then s.bytes[i]?
      else if i < o then some 0 else none

theorem placed_put (s : ByteStore) (o : Nat) (data : List UInt8) :
    s.Placed { s with bytes := put s.bytes o data } o data :=
  ⟨rfl, getElem?_put s.bytes o data⟩

end ByteStore

theorem toNat_emod_of_le_max {k : Nat} (hk : (k : Int) ≤ Signed64.max) :
    ((k : Int) % Int.pow 2 64).toNat = k := by
  have h64 : Int.pow 2 64 = 18446744073709551616 := rfl
  have hmax : Signed64.max = 9223372036854775807 := rfl
  rw [h64]
  rw [hmax] at hk
  omega

namespace PendingPoint

-- ---------------------------------------------------------------------------
-- Seeding cells a caller names
-- ---------------------------------------------------------------------------

theorem seedAt_runOn_of_timing_error {step arcStep lastUpdate : Int} {e : Lattice.TimingError}
    (h : Lattice.unknownSteps step arcStep lastUpdate = .error e) (v c : Nat) (st : Storage) :
    (seedAt v c step arcStep lastUpdate).runOn st = (.error (.timing e), st) := by
  unfold seedAt
  rw [h]
  rfl

/-- Seeding cells a caller names, once the timing gives the count `k`: the
count write on the count cell, then the NaN write on the value cell, a
failure carrying the store's error as it is. -/
theorem seedAt_runOn {step arcStep lastUpdate : Int} {k : Nat}
    (hk : Lattice.unknownSteps step arcStep lastUpdate = .ok k) (hmax : (k : Int) ≤ Signed64.max)
    (v c : Nat) (st : Storage) :
    (seedAt v c step arcStep lastUpdate).runOn st = match st.store.writeLong c k with
      | .error e => (.error (.store e), st)
      | .ok s₁ => match s₁.writeDouble v Binary64.nan with
        | .error e => (.error (.store e), { st with store := s₁ })
        | .ok s₂ => (.ok ⟨v, c⟩, { st with store := s₂ }) := by
  have hseed := seed_runOn ⟨v, c⟩ hmax st.store
  have htiming : (Seeding.ofTiming (.ok k : Except Lattice.TimingError Nat)).runOn st = (.ok k, st) :=
    rfl
  unfold seedAt
  rw [hk, Seeding.runOn_bind_ok htiming]
  -- the run goes on after the seeding writes only when both succeed
  cases hw : st.store.writeLong c k with
  | error e =>
    simp only [hw] at hseed
    dsimp only
    exact Seeding.runOn_bind_error (Seeding.onStore_runOn_error hseed)
  | ok s₁ =>
    dsimp only
    cases hw' : s₁.writeDouble v Binary64.nan with
    | error e =>
      simp only [hw, hw'] at hseed
      exact Seeding.runOn_bind_error (Seeding.onStore_runOn_error hseed)
    | ok s₂ =>
      simp only [hw, hw'] at hseed
      rw [Seeding.runOn_bind_ok (Seeding.onStore_runOn_ok hseed)]
      rfl

-- ---------------------------------------------------------------------------
-- Creating a point
-- ---------------------------------------------------------------------------

theorem unknownSteps_le_max {step arcStep lastUpdate : Int} {k : Nat}
    (hk : Lattice.unknownSteps step arcStep lastUpdate = .ok k) (harc : arcStep ≤ Signed64.max) :
    (k : Int) ≤ Signed64.max :=
  Int.le_of_lt (Int.lt_of_lt_of_le (Lattice.unknownSteps_lt hk) harc)

/-- Creating a point whose timing seeds with `k`, on a memory store whose
next two cells end within 64-bit offsets: it takes those cells, places the
count on the second and then NaN on the first, and reads as NaN with `k`. -/
theorem create_places {step arcStep lastUpdate : Int} {k : Nat}
    (hk : Lattice.unknownSteps step arcStep lastUpdate = .ok k) (hmax : (k : Int) ≤ Signed64.max)
    {st : Storage} (hmem : st.store.backing = .memory)
    (hfit : st.allocator.position + 2 * cellSize ≤ ByteStore.offsetMax) :
    ∃ st' s₁, (create step arcStep lastUpdate).runOn st = (.ok (slotAt st.allocator.position), st') ∧
      st'.allocator.position = st.allocator.position + 2 * cellSize ∧
      st.store.Placed s₁ (st.allocator.position + cellSize) (bigEndian cellSize k) ∧
      s₁.Placed st'.store st.allocator.position (bigEndian cellSize Binary64.nan.bits.toNat) ∧
      (slotAt st.allocator.position).snapshot.runOn st'.store = (.ok ⟨Binary64.nan, k⟩, st'.store) := by
  have hrun := create_runOn_of_fits hk hmax hmem hfit
  obtain ⟨k', hk', -, hseeded, -⟩ := create_seeded hrun
  rw [hk] at hk'
  cases hk'
  let s₁ : ByteStore := { st.store with
    bytes := ByteStore.put st.store.bytes (st.allocator.position + cellSize) (bigEndian cellSize k) }
  refine ⟨_, s₁, hrun, rfl, ByteStore.placed_put _ _ _, ?_, hseeded.snapshot hmax⟩
  have hplaced := ByteStore.placed_put s₁ st.allocator.position (bigEndian cellSize Binary64.nan.bits.toNat)
  rw [toNat_emod_of_le_max hmax]
  exact hplaced

/-- Creating one point for an archive whose step is in the 64-bit range. It
is refused with the timing error exactly when the seed count is, and then
leaves the storage as it was. Otherwise, on a memory store whose next two
cells end within 64-bit offsets, it takes those cells, moving the allocator
by sixteen bytes, places the count on the second cell and then NaN on the
first, changing no other byte but zeros filling a gap, and the point reads
as NaN with that count. Seeding cells a caller names makes the same two
writes in the same order, writes nothing when the timing is refused, and
ends at a failing write with its error, keeping the writes before it. -/
theorem create_footprint {step arcStep lastUpdate : Int} (harc : arcStep ≤ Signed64.max) :
    (∀ e, Lattice.unknownSteps step arcStep lastUpdate = .error e → ∀ st : Storage,
      (create step arcStep lastUpdate).runOn st = (.error (.timing e), st)) ∧
    (∀ k, Lattice.unknownSteps step arcStep lastUpdate = .ok k → ∀ st : Storage,
      st.store.backing = .memory → st.allocator.position + 2 * cellSize ≤ ByteStore.offsetMax →
      ∃ st' s₁,
        (create step arcStep lastUpdate).runOn st = (.ok (slotAt st.allocator.position), st') ∧
        st'.allocator.position = st.allocator.position + 2 * cellSize ∧
        st.store.Placed s₁ (st.allocator.position + cellSize) (bigEndian cellSize k) ∧
        s₁.Placed st'.store st.allocator.position (bigEndian cellSize Binary64.nan.bits.toNat) ∧
        (slotAt st.allocator.position).snapshot.runOn st'.store =
          (.ok ⟨Binary64.nan, k⟩, st'.store)) ∧
    (∀ e, Lattice.unknownSteps step arcStep lastUpdate = .error e → ∀ (v c : Nat) (st : Storage),
      (seedAt v c step arcStep lastUpdate).runOn st = (.error (.timing e), st)) ∧
    (∀ k, Lattice.unknownSteps step arcStep lastUpdate = .ok k → ∀ (v c : Nat) (st : Storage),
      (seedAt v c step arcStep lastUpdate).runOn st = match st.store.writeLong c k with
        | .error e => (.error (.store e), st)
        | .ok s₁ => match s₁.writeDouble v Binary64.nan with
          | .error e => (.error (.store e), { st with store := s₁ })
          | .ok s₂ => (.ok ⟨v, c⟩, { st with store := s₂ })) :=
  ⟨fun _ he st => create_runOn_of_timing_error he st,
    fun _ hk _ hmem hfit => create_places hk (unknownSteps_le_max hk harc) hmem hfit,
    fun _ he => seedAt_runOn_of_timing_error he,
    fun _ hk => seedAt_runOn hk (unknownSteps_le_max hk harc)⟩

/-- Creating a point for five-minute steps and half-hour archive rows. -/
theorem create_footprint_half_hour :
    (1800 : Int) ≤ Signed64.max ∧
    (∀ e, Lattice.unknownSteps 300 1800 4000 = .error e → ∀ st : Storage,
      (create 300 1800 4000).runOn st = (.error (.timing e), st)) ∧
    (∀ k, Lattice.unknownSteps 300 1800 4000 = .ok k → ∀ st : Storage,
      st.store.backing = .memory → st.allocator.position + 2 * cellSize ≤ ByteStore.offsetMax →
      ∃ st' s₁,
        (create 300 1800 4000).runOn st = (.ok (slotAt st.allocator.position), st') ∧
        st'.allocator.position = st.allocator.position + 2 * cellSize ∧
        st.store.Placed s₁ (st.allocator.position + cellSize) (bigEndian cellSize k) ∧
        s₁.Placed st'.store st.allocator.position (bigEndian cellSize Binary64.nan.bits.toNat) ∧
        (slotAt st.allocator.position).snapshot.runOn st'.store =
          (.ok ⟨Binary64.nan, k⟩, st'.store)) ∧
    (∀ e, Lattice.unknownSteps 300 1800 4000 = .error e → ∀ (v c : Nat) (st : Storage),
      (seedAt v c 300 1800 4000).runOn st = (.error (.timing e), st)) ∧
    (∀ k, Lattice.unknownSteps 300 1800 4000 = .ok k → ∀ (v c : Nat) (st : Storage),
      (seedAt v c 300 1800 4000).runOn st = match st.store.writeLong c k with
        | .error e => (.error (.store e), st)
        | .ok s₁ => match s₁.writeDouble v Binary64.nan with
          | .error e => (.error (.store e), { st with store := s₁ })
          | .ok s₂ => (.ok ⟨v, c⟩, { st with store := s₂ })) :=
  ⟨by decide, create_footprint (by decide)⟩

end PendingPoint

end RoundRobin
