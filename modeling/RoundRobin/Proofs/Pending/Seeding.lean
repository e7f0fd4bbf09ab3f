import RoundRobin.Proofs.Pending.Layout
import RoundRobin.Proofs.Store.Readback
import RoundRobin.Proofs.Store.Calls
import RoundRobin.Proofs.Config.Validation
import RoundRobin.Proofs.Time.Phase

/-!
# Seeding archive state, archive by archive

A point checks its timing before it allocates or writes anything, and every
point of a row shares one timing; its count then stays below the row length,
so it fits in a signed 64-bit cell, and a memory store takes every write whose
cells end within 64-bit offsets. So creating the row of one archive is all or
nothing (`PendingRow.create_error`): when it fails the storage is as it was,
and the failure is the header, the archive, the row length or the timing.
When it succeeds every point holds NaN and the unknown steps of its archive
(`PendingRow.FreshIn`), and cells below where the allocator stood read as
before (`ByteStore.KeepsBelow`).

Creating the rows of a whole definition runs the archives in order and
undoes nothing: a failing archive leaves the rows before it made and seeded
(`createAll_seeds_archive_by_archive`). A definition that passes its own
checks still fails there when the boundary of an archive lies below the
64-bit range (`createAll_keeps_row_before_failing_archive`).
-/

namespace RoundRobin

theorem Signed64.le_max_of_checkedMul {a b c : Int} (h : Signed64.checkedMul a b = some c) :
    c ≤ Signed64.max := by
  unfold Signed64.checkedMul at h
  split at h
  · rename_i hfits
    cases h
    simp only [Signed64.fits, Bool.and_eq_true, decide_eq_true_eq] at hfits
    exact hfits.2
  · cases h

theorem Signed64.eq_of_checkedMul {a b c : Int} (h : Signed64.checkedMul a b = some c) : c = a * b := by
  unfold Signed64.checkedMul at h
  split at h
  · cases h
    rfl
  · cases h

-- ---------------------------------------------------------------------------
-- Cells below a position
-- ---------------------------------------------------------------------------

namespace ByteStore

def KeepsBelow (q : Nat) (s s' : ByteStore) : Prop :=
  ∀ c, c + cellSize ≤ q → c + cellSize ≤ s.size → s'.read c cellSize = s.read c cellSize

theorem KeepsBelow.trans {q q' : Nat} {s₁ s₂ s₃ : ByteStore} (h₁ : s₁.KeepsBelow q s₂)
    (h₂ : s₂.KeepsBelow q' s₃) (hq : q ≤ q') (hsize : s₁.size ≤ s₂.size) : s₁.KeepsBelow q s₃ := by
  intro c hc hcs
  rw [h₂ c (Nat.le_trans hc hq) (Nat.le_trans hcs hsize), h₁ c hc hcs]

theorem keepsBelow_put {s : ByteStore} {q o : Nat} {data : List UInt8}
    (hlen : data.length = cellSize) (ho : q ≤ o) :
    s.KeepsBelow q { s with bytes := put s.bytes o data } :=
  fun _ hc hcs => read_put_of_apart hlen hcs (.inr (Nat.le_trans hc ho))

end ByteStore

namespace Seeding

theorem runOn_bind_eq_error {x : Seeding α} {f : α → Seeding β} {st st'' : Storage} {e : StateError}
    (h : (x >>= f).runOn st = (.error e, st'')) :
    x.runOn st = (.error e, st'') ∨ ∃ a st', x.runOn st = (.ok a, st') ∧ (f a).runOn st' = (.error e, st'') := by
  rcases hx : x.runOn st with ⟨r, st'⟩
  cases r with
  | error e' =>
    rw [runOn_bind_error hx, Prod.mk.injEq, Except.error.injEq] at h
    obtain ⟨rfl, rfl⟩ := h
    exact .inl rfl
  | ok a => exact .inr ⟨a, st', rfl, (runOn_bind_ok hx).symm.trans h⟩

theorem mapM_error {g : α → Seeding β} :
    ∀ {xs : List α} {st st' : Storage} {e : StateError}, (xs.mapM g).runOn st = (.error e, st') →
      ∃ i x ys st₁, xs[i]? = some x ∧ ((xs.take i).mapM g).runOn st = (.ok ys, st₁) ∧
        (g x).runOn st₁ = (.error e, st')
  | [], _, _, _, h => by cases h
  | x :: rest, st, st', e, h => by
    rw [List.mapM_cons] at h
    rcases runOn_bind_eq_error h with hx | ⟨b, st₁, hx, h⟩
    · exact ⟨0, x, [], st, rfl, rfl, hx⟩
    · rcases runOn_bind_eq_error h with hrest | ⟨bs, st₂, -, hpure⟩
      · obtain ⟨i, y, ys, st₃, hy, hprefix, hfail⟩ := mapM_error hrest
        refine ⟨i + 1, y, b :: ys, st₃, hy, ?_, hfail⟩
        rw [List.take_succ_cons, List.mapM_cons, runOn_bind_ok hx, runOn_bind_ok hprefix]
        rfl
      · cases hpure

end Seeding

-- ---------------------------------------------------------------------------
-- Seeded points
-- ---------------------------------------------------------------------------

namespace PendingPoint

def Seeded (s : ByteStore) (k : Nat) (p : PendingPoint) : Prop :=
  s.read p.valueCell cellSize = .ok (bigEndian cellSize Binary64.nan.bits.toNat) ∧
    s.read p.countCell cellSize = .ok (bigEndian cellSize ((k : Int) % Int.pow 2 64).toNat)

theorem Seeded.of_keepsBelow {s s' : ByteStore} {k q : Nat} {p : PendingPoint} (h : p.Seeded s k)
    (hkeep : s.KeepsBelow q s') (hcells : ∀ c ∈ p.cells, c + cellSize ≤ q) : p.Seeded s' k :=
  ⟨(hkeep _ (hcells _ (by simp [cells])) (ByteStore.le_size_of_read_ok (by decide) h.1)).trans h.1,
    (hkeep _ (hcells _ (by simp [cells])) (ByteStore.le_size_of_read_ok (by decide) h.2)).trans h.2⟩

theorem count_runOn {s : ByteStore} {p : PendingPoint} {k : Nat}
    (h : s.readLong p.countCell = .ok k) : p.count.runOn s = (.ok k, s) := by
  unfold count
  rw [StoreM.runOn_bind_ok ((StoreM.readLong_runOn _ _).trans (by rw [h]))]
  rfl

theorem Seeded.snapshot {s : ByteStore} {k : Nat} {p : PendingPoint} (h : p.Seeded s k)
    (hk : (k : Int) ≤ Signed64.max) : p.snapshot.runOn s = (.ok ⟨Binary64.nan, k⟩, s) := by
  have hlo : Signed64.min ≤ (k : Int) := Int.le_trans (by decide) (Int.natCast_nonneg k)
  have hvalue : p.value.runOn s = (.ok Binary64.nan, s) := by
    rw [value, StoreM.readDouble_runOn, ByteStore.readDouble_of_read h.1]
  unfold PendingPoint.snapshot
  rw [StoreM.runOn_bind_ok hvalue, StoreM.runOn_bind_ok (count_runOn (ByteStore.readLong_of_read hlo hk h.2))]
  rfl

theorem storedCount_eq_ok_iff {k : Nat} {n : Int} :
    storedCount k = .ok n ↔ n = k ∧ (k : Int) ≤ Signed64.max := by
  have h63 : Nat.pow 2 63 = 9223372036854775808 := rfl
  have hmax : Signed64.max = 9223372036854775807 := rfl
  unfold storedCount
  rw [h63, hmax]
  split
  · next hk => exact ⟨fun h => ⟨(Except.ok.inj h).symm, by omega⟩, fun ⟨hn, _⟩ => by rw [hn]⟩
  · next hk => exact ⟨fun h => (nomatch h), fun ⟨_, hle⟩ => absurd (by omega) hk⟩

theorem setValue_runOn (p : PendingPoint) (x : Binary64) (s : ByteStore) :
    (p.setValue x).runOn s = match s.writeDouble p.valueCell x with
      | .ok s' => (.ok (), s')
      | .error e => (.error e, s) :=
  StoreM.writeDouble_runOn _ _ _

theorem setCount_runOn (p : PendingPoint) (n : Nat) (s : ByteStore) :
    (p.setCount n).runOn s =
      if (n : Int) ≤ Signed64.max then
        match s.writeLong p.countCell n with
        | .ok s' => (.ok (), s')
        | .error e => (.error e, s)
      else (.error (.invalidValue s!"unknown step count {n} too large"), s) := by
  unfold setCount
  by_cases hn : (n : Int) ≤ Signed64.max
  · have hstored : storedCount n = .ok (n : Int) := storedCount_eq_ok_iff.mpr ⟨rfl, hn⟩
    rw [if_pos hn, StoreM.runOn_bind_ok ((StoreM.runOn_ofExcept _ s).trans (by rw [hstored]))]
    exact StoreM.writeLong_runOn _ _ _
  · have h63 : ¬ n < Nat.pow 2 63 := fun hlt => hn (by
      have : Signed64.max = Nat.pow 2 63 - 1 := rfl
      omega)
    have hstored : storedCount n = .error (.invalidValue s!"unknown step count {n} too large") :=
      if_neg h63
    rw [if_neg hn]
    exact StoreM.runOn_bind_error ((StoreM.runOn_ofExcept _ s).trans (by rw [hstored]))

theorem seed_runOn (p : PendingPoint) {k : Nat} (hk : (k : Int) ≤ Signed64.max) (s : ByteStore) :
    (p.seed k).runOn s = match s.writeLong p.countCell k with
      | .error e => (.error e, s)
      | .ok s₁ => match s₁.writeDouble p.valueCell Binary64.nan with
        | .error e => (.error e, s₁)
        | .ok s₂ => (.ok (), s₂) := by
  have hcount := setCount_runOn p k s
  rw [if_pos hk] at hcount
  unfold seed
  cases hw : s.writeLong p.countCell k with
  | error e =>
    simp only [hw] at hcount
    exact StoreM.runOn_bind_error hcount
  | ok s₁ =>
    simp only [hw] at hcount
    dsimp only
    rw [StoreM.runOn_bind_ok hcount, setValue_runOn]
    cases s₁.writeDouble p.valueCell Binary64.nan <;> rfl

/-- Seeding writes the count cell, then the value cell right before it: the
count fits in a signed 64-bit cell, both cells hold what was written, and
every cell below the point reads as before. -/
theorem seed_seeded {p : PendingPoint} {k : Nat} {s s' : ByteStore}
    (hcells : p.valueCell + cellSize = p.countCell) (h : (p.seed k).runOn s = (.ok (), s')) :
    (k : Int) ≤ Signed64.max ∧ p.Seeded s' k ∧ s.KeepsBelow p.valueCell s' := by
  obtain ⟨n, s₁, hn, hlong, hvalue⟩ := seed_inv h
  obtain ⟨rfl, hmax⟩ := storedCount_eq_ok_iff.mp hn
  have hs₁ := StoreM.writeLong_runOn_ok hlong
  have hs' := StoreM.writeDouble_runOn_ok hvalue
  have hext₁ := (StoreM.writeLong_ok hlong).1
  have hcount₁ := (StoreM.writeLong_ok hlong).2
  have hvalue' := (StoreM.writeDouble_ok hvalue).2
  refine ⟨hmax, ⟨?_, ?_⟩, ?_⟩
  · rw [hs']
    exact ByteStore.read_put_self (length_bigEndian _ _) fun l hf => hvalue'.2 l (by rw [hs']; exact hf)
  · -- the value cell lies right before the count cell, so its write keeps the count
    rw [hs', ByteStore.read_put_of_apart (length_bigEndian _ _) hcount₁.1 (.inl (Nat.le_of_eq hcells)), hs₁]
    exact ByteStore.read_put_self (length_bigEndian _ _) fun l hf => hcount₁.2 l (by rw [hs₁]; exact hf)
  · refine (hs₁ ▸ ByteStore.keepsBelow_put (length_bigEndian _ _) (by omega)).trans
      (hs' ▸ ByteStore.keepsBelow_put (length_bigEndian _ _) (Nat.le_refl _)) (Nat.le_refl _) hext₁.2

end PendingPoint

-- ---------------------------------------------------------------------------
-- Creating a point
-- ---------------------------------------------------------------------------

namespace PendingPoint

theorem create_runOn_of_timing_error {step arcStep lastUpdate : Int} {e : Lattice.TimingError}
    (h : Lattice.unknownSteps step arcStep lastUpdate = .error e) (st : Storage) :
    (create step arcStep lastUpdate).runOn st = (.error (.timing e), st) := by
  unfold create
  rw [h]
  rfl

theorem seed_runOn_of_fits {p : PendingPoint} {k : Nat} {s : ByteStore} (hmem : s.backing = .memory)
    (hk : (k : Int) ≤ Signed64.max) (hvalue : p.valueCell + cellSize ≤ ByteStore.offsetMax)
    (hcount : p.countCell + cellSize ≤ ByteStore.offsetMax) :
    (p.seed k).runOn s = (.ok (), { s with
      bytes := ByteStore.put
        (ByteStore.put s.bytes p.countCell (bigEndian cellSize ((k : Int) % Int.pow 2 64).toNat))
        p.valueCell (bigEndian cellSize Binary64.nan.bits.toNat) }) := by
  -- both writes end within 64-bit offsets, and the count write keeps the memory backing
  rw [seed_runOn p hk, ByteStore.writeLong_memory hmem hcount]
  dsimp only
  rw [ByteStore.writeDouble_memory (s := { s with
    bytes := ByteStore.put s.bytes p.countCell (bigEndian cellSize ((k : Int) % Int.pow 2 64).toNat) })
    hmem hvalue]

/-- A point whose timing seeds with `k`, on a memory store whose next two
cells fit below the largest 64-bit offset, takes those cells and writes the
count, then NaN. -/
theorem create_runOn_of_fits {step arcStep lastUpdate : Int} {k : Nat}
    (hk : Lattice.unknownSteps step arcStep lastUpdate = .ok k) (hmax : (k : Int) ≤ Signed64.max)
    {st : Storage} (hmem : st.store.backing = .memory)
    (hfit : st.allocator.position + 2 * cellSize ≤ ByteStore.offsetMax) :
    (create step arcStep lastUpdate).runOn st = (.ok (slotAt st.allocator.position),
      ⟨{ st.store with
          bytes := ByteStore.put
            (ByteStore.put st.store.bytes (st.allocator.position + cellSize)
              (bigEndian cellSize ((k : Int) % Int.pow 2 64).toNat))
            st.allocator.position (bigEndian cellSize Binary64.nan.bits.toNat) },
        ⟨st.allocator.position + cellSize + cellSize⟩⟩) := by
  have hseed := seed_runOn_of_fits (p := ⟨st.allocator.position, st.allocator.position + cellSize⟩)
    hmem hmax
    (by simp only [cellSize] at *; omega) (by simp only [cellSize] at *; omega)
  have htiming : (Seeding.ofTiming (.ok k : Except Lattice.TimingError Nat)).runOn st = (.ok k, st) :=
    rfl
  unfold create
  rw [hk, Seeding.runOn_bind_ok htiming, Seeding.allocate_bind_runOn, Seeding.allocate_bind_runOn]
  · dsimp only
    have hstore : (Seeding.onStore (PendingPoint.seed
        ⟨st.allocator.position, st.allocator.position + cellSize⟩ k)).runOn
        ⟨st.store, ⟨st.allocator.position + cellSize + cellSize⟩⟩ = (.ok (), _) :=
      Seeding.onStore_runOn_ok hseed
    rw [Seeding.runOn_bind_ok hstore]
    rfl
  all_goals (simp only [cellSize] at *; omega)

theorem create_seeded {step arcStep lastUpdate : Int} {st st' : Storage} {p : PendingPoint}
    (h : (create step arcStep lastUpdate).runOn st = (.ok p, st')) :
    ∃ k, Lattice.unknownSteps step arcStep lastUpdate = .ok k ∧ (k : Int) ≤ Signed64.max ∧
      p.Seeded st'.store k ∧ st.store.KeepsBelow st.allocator.position st'.store := by
  obtain ⟨k, hk, rfl, -, -, hseed⟩ := create_inv h
  obtain ⟨hmax, hseeded, hkeep⟩ := seed_seeded rfl hseed
  exact ⟨k, hk, hmax, hseeded, hkeep⟩

end PendingPoint

-- ---------------------------------------------------------------------------
-- Creating a row
-- ---------------------------------------------------------------------------

namespace PendingRow

theorem mapM_create_ok_of_fits {step arc lastUpdate : Int} {k : Nat}
    (hk : Lattice.unknownSteps step arc lastUpdate = .ok k) (hmax : (k : Int) ≤ Signed64.max) :
    ∀ (names : List SourceName) (st : Storage), st.store.backing = .memory →
      st.allocator.position + 2 * cellSize * names.length ≤ ByteStore.offsetMax →
      ∃ es st', (names.mapM fun n => do
          let p ← PendingPoint.create step arc lastUpdate
          return (n, p)).runOn st = (.ok es, st')
  | [], st, _, _ => ⟨[], st, rfl⟩
  | n :: rest, st, hmem, hfit => by
    simp only [List.length_cons, cellSize] at hfit
    obtain ⟨st₁, hfirst, hmem₁, hpos₁⟩ : ∃ st₁, (PendingPoint.create step arc lastUpdate).runOn st =
        (.ok (PendingPoint.slotAt st.allocator.position), st₁) ∧ st₁.store.backing = .memory ∧
          st₁.allocator.position = st.allocator.position + cellSize + cellSize :=
      ⟨_, PendingPoint.create_runOn_of_fits hk hmax hmem (by simp only [cellSize]; omega), hmem, rfl⟩
    obtain ⟨es, st', hrest⟩ := mapM_create_ok_of_fits hk hmax rest st₁ hmem₁
      (by rw [hpos₁]; simp only [cellSize]; omega)
    have hpoint : (do let p ← PendingPoint.create step arc lastUpdate; return (n, p) : Seeding _).runOn st =
        (.ok (n, PendingPoint.slotAt st.allocator.position), st₁) := by
      rw [Seeding.runOn_bind_ok hfirst]
      rfl
    refine ⟨(n, PendingPoint.slotAt st.allocator.position) :: es, st', ?_⟩
    rw [List.mapM_cons, Seeding.runOn_bind_ok hpoint, Seeding.runOn_bind_ok hrest]
    rfl

/-- Points created name by name in a memory store whose cells fit fail only
for their timing, and then before anything is allocated or written: every
point has the same timing, checked first. -/
theorem mapM_create_error {step arc lastUpdate : Int} (harc : arc ≤ Signed64.max)
    {names : List SourceName} {st st' : Storage} {e : StateError} (hmem : st.store.backing = .memory)
    (hfit : st.allocator.position + 2 * cellSize * names.length ≤ ByteStore.offsetMax)
    (h : (names.mapM fun n => do
      let p ← PendingPoint.create step arc lastUpdate
      return (n, p)).runOn st = (.error e, st')) :
    st' = st ∧ ∃ te, e = .timing te := by
  cases hk : Lattice.unknownSteps step arc lastUpdate with
  | error te =>
    cases names with
    | nil => cases h
    | cons n rest =>
      rw [List.mapM_cons, Seeding.runOn_bind_error (Seeding.runOn_bind_error
        (PendingPoint.create_runOn_of_timing_error hk st)), Prod.mk.injEq, Except.error.injEq] at h
      obtain ⟨rfl, rfl⟩ := h
      exact ⟨rfl, te, rfl⟩
  | ok k =>
    -- a seeding timing never fails later: the count stays below the row length
    have hmax : (k : Int) ≤ Signed64.max := Int.le_trans (Int.le_of_lt (Lattice.unknownSteps_lt hk)) harc
    obtain ⟨es, st'', hok⟩ := mapM_create_ok_of_fits hk hmax names st hmem hfit
    rw [hok] at h
    cases h

theorem ofConfig_runOn_ok (a : α) (st : Storage) :
    (ofConfig (.ok a : Except ConfigError α)).runOn st = (.ok a, st) := rfl

theorem ofConfig_runOn_error (ce : ConfigError) (st : Storage) :
    (ofConfig (.error ce : Except ConfigError α)).runOn st = (.error (.config ce), st) := rfl

/-- Creating a row in a memory store whose cells fit fails only before it
allocates or writes anything; when its header, archive and row length pass,
the failure is the timing of its points. -/
theorem create_error {header : Header} {spec : ArchiveSpec} {names : List SourceName}
    {st st' : Storage} {e : StateError} (hmem : st.store.backing = .memory)
    (hfit : st.allocator.position + 2 * cellSize * names.length ≤ ByteStore.offsetMax)
    (h : (create header spec names).runOn st = (.error e, st')) :
    st' = st ∧ (header.validate = .ok () → spec.validate = .ok () →
      (spec.arcStep header.step).isSome → ∃ te, e = .timing te) := by
  unfold create at h
  cases hh : header.validate with
  | error ce =>
    rw [hh, Seeding.runOn_bind_error (ofConfig_runOn_error ce st), Prod.mk.injEq] at h
    exact ⟨h.2.symm, fun hok => by cases hok⟩
  | ok u =>
    rw [hh, Seeding.runOn_bind_ok (ofConfig_runOn_ok u st)] at h
    cases hs : spec.validate with
    | error ce =>
      rw [hs, Seeding.runOn_bind_error (ofConfig_runOn_error ce st), Prod.mk.injEq] at h
      exact ⟨h.2.symm, fun _ hok => by cases hok⟩
    | ok u' =>
      rw [hs, Seeding.runOn_bind_ok (ofConfig_runOn_ok u' st)] at h
      cases ha : spec.arcStep header.step with
      | none =>
        rw [ha, Prod.mk.injEq] at h
        exact ⟨h.2.symm, fun _ _ hsome => by cases hsome⟩
      | some arc =>
        rw [ha] at h
        rcases Seeding.runOn_bind_eq_error h with hmap | ⟨es, st₁, -, hpure⟩
        · obtain ⟨rfl, hte⟩ := mapM_create_error (Signed64.le_max_of_checkedMul ha) hmem hfit hmap
          exact ⟨rfl, fun _ _ _ => hte⟩
        · cases hpure

theorem mapM_create_seeded {step arc lastUpdate : Int} :
    ∀ {names : List SourceName} {st st' : Storage} {es : List (SourceName × PendingPoint)},
      (names.mapM fun n => do
          let p ← PendingPoint.create step arc lastUpdate
          return (n, p)).runOn st = (.ok es, st') →
      st.store.KeepsBelow st.allocator.position st'.store ∧
        ∀ e ∈ es, ∃ k, Lattice.unknownSteps step arc lastUpdate = .ok k ∧
          (k : Int) ≤ Signed64.max ∧ e.2.Seeded st'.store k
  | [], st, st', es, h => by
    cases h
    exact ⟨fun _ _ _ => rfl, by simp⟩
  | n :: rest, st, st', es, h => by
    obtain ⟨e, st₁, es', hfirst, hrest, rfl⟩ := Seeding.mapM_cons_eq_ok h
    obtain ⟨p, hcreate, rfl⟩ := Seeding.runOn_bind_pure_eq_ok hfirst
    obtain ⟨rfl, hpos, -, hext, -⟩ := PendingPoint.create_ok hcreate
    obtain ⟨k, hk, hmax, hseeded, hkeep⟩ := PendingPoint.create_seeded hcreate
    obtain ⟨hkeep', hseeded'⟩ := mapM_create_seeded hrest
    refine ⟨hkeep.trans hkeep' (by omega) hext.2, ?_⟩
    intro e he
    rcases List.mem_cons.mp he with rfl | he
    · refine ⟨k, hk, hmax, hseeded.of_keepsBelow hkeep' fun c hc => ?_⟩
      simp only [PendingPoint.cells, PendingPoint.slotAt, List.mem_cons, List.not_mem_nil,
        or_false] at hc
      rw [hpos]
      simp only [cellSize] at *
      omega
    · exact hseeded' e he

/-- The points of a created row hold NaN and the count of the header's step
and the archive's row length, and every cell below where the allocator stood
reads as before. -/
theorem create_seeded {header : Header} {spec : ArchiveSpec} {names : List SourceName}
    {st st' : Storage} {r : PendingRow} (h : (create header spec names).runOn st = (.ok r, st')) :
    st.store.KeepsBelow st.allocator.position st'.store ∧
      ∀ e ∈ r.entries, ∃ k, Lattice.unknownSteps header.step (spec.steps * header.step)
        header.lastUpdate = .ok k ∧ (k : Int) ≤ Signed64.max ∧ e.2.Seeded st'.store k := by
  obtain ⟨arc, es, harc, hes, rfl⟩ := create_inv h
  rw [← Signed64.eq_of_checkedMul harc]
  exact mapM_create_seeded hes

theorem mapM_create_all_seeded {header : Header} {names : List SourceName} :
    ∀ {specs : List ArchiveSpec} {st st' : Storage} {rows : List PendingRow},
      (specs.mapM fun a => create header a names).runOn st = (.ok rows, st') →
      st.store.KeepsBelow st.allocator.position st'.store ∧
        ∀ r ∈ rows, ∀ e ∈ r.entries, ∃ k, Lattice.unknownSteps r.header.step
          (r.spec.steps * r.header.step) r.header.lastUpdate = .ok k ∧
            (k : Int) ≤ Signed64.max ∧ e.2.Seeded st'.store k
  | [], st, st', rows, h => by
    cases h
    exact ⟨fun _ _ _ => rfl, by simp⟩
  | a :: rest, st, st', rows, h => by
    obtain ⟨r, st₁, rows', hfirst, hrest, rfl⟩ := Seeding.mapM_cons_eq_ok h
    obtain ⟨rfl, hpos, -, hext, -⟩ := create_ok hfirst
    obtain ⟨hkeep, hseeded⟩ := create_seeded hfirst
    obtain ⟨hkeep', hseeded'⟩ := mapM_create_all_seeded hrest
    refine ⟨hkeep.trans hkeep' (by omega) hext.2, ?_⟩
    intro r hr
    rcases List.mem_cons.mp hr with rfl | hr
    · intro e he
      obtain ⟨k, hk, hmax, hpoint⟩ := hseeded e he
      refine ⟨k, hk, hmax, hpoint.of_keepsBelow hkeep' fun c hc => ?_⟩
      have hslot : c ∈ slots st.allocator.position (2 * names.length) := by
        rw [← cells_layoutEntries]
        exact List.mem_flatMap.mpr ⟨e, he, hc⟩
      rw [hpos, Nat.mul_comm 2 cellSize, Nat.mul_assoc]
      exact (mem_slots hslot).2
    · exact hseeded' r hr

end PendingRow

-- ---------------------------------------------------------------------------
-- Seeding archive by archive
-- ---------------------------------------------------------------------------

/-- Every point of the row reads as freshly seeded for its archive: NaN, and
the unknown steps of the header's step and the archive's row length. -/
def PendingRow.FreshIn (s : ByteStore) (r : PendingRow) : Prop :=
  ∀ e ∈ r.entries, ∃ k, Lattice.unknownSteps r.header.step (r.spec.steps * r.header.step)
    r.header.lastUpdate = .ok k ∧ e.2.snapshot.runOn s = (.ok ⟨Binary64.nan, k⟩, s)

theorem PendingRow.freshIn_of_seeded {s : ByteStore} {r : PendingRow}
    (h : ∀ e ∈ r.entries, ∃ k, Lattice.unknownSteps r.header.step (r.spec.steps * r.header.step)
      r.header.lastUpdate = .ok k ∧ (k : Int) ≤ Signed64.max ∧ e.2.Seeded s k) : r.FreshIn s := by
  intro e he
  obtain ⟨k, hk, hmax, hseeded⟩ := h e he
  exact ⟨k, hk, hseeded.snapshot hmax⟩

/-- Seeding in a memory store whose allocator stays within 64-bit offsets.
Creating the row of one archive either fails and leaves the storage as it
was, or lays out one point per name on the next sixteen bytes each and seeds
every point with NaN and the unknown steps of its archive. Creating the rows
of a whole definition seeds them archive by archive: when it succeeds every
row is seeded so; when it fails, the rows of the archives before the failing
one stay made and seeded, the failing archive leaves the storage as it found
it, and for a definition that passes its own checks the failure is the
timing of that archive. -/
theorem createAll_seeds_archive_by_archive (st : Storage) (hmem : st.store.backing = .memory) :
    (∀ (header : Header) (spec : ArchiveSpec) (names : List SourceName) (e : StateError)
      (st' : Storage), st.allocator.position + 16 * names.length ≤ ByteStore.offsetMax →
      (PendingRow.create header spec names).runOn st = (.error e, st') → st' = st) ∧
    (∀ (header : Header) (spec : ArchiveSpec) (names : List SourceName) (r : PendingRow)
      (st' : Storage), (PendingRow.create header spec names).runOn st = (.ok r, st') →
      r = ⟨header, spec, layoutEntries names st.allocator.position⟩ ∧ r.FreshIn st'.store ∧
        st'.allocator.position = st.allocator.position + 16 * names.length) ∧
    (∀ (d : Definition) (rows : List PendingRow) (st' : Storage),
      (PendingRow.createAll d).runOn st = (.ok rows, st') →
      rows = layoutRows d.header d.sources d.archives st.allocator.position ∧
        (∀ r ∈ rows, r.FreshIn st'.store) ∧
        st'.allocator.position = st.allocator.position + 16 * d.archives.length * d.sources.length) ∧
    (∀ (d : Definition) (e : StateError) (st' : Storage),
      st.allocator.position + 16 * d.archives.length * d.sources.length ≤ ByteStore.offsetMax →
      (PendingRow.createAll d).runOn st = (.error e, st') →
      ∃ i spec rows, d.archives[i]? = some spec ∧
        (PendingRow.createAll { d with archives := d.archives.take i }).runOn st = (.ok rows, st') ∧
        (PendingRow.create d.header spec d.sources).runOn st' = (.error e, st') ∧
        (d.validate = .ok () → ∃ te, e = .timing te)) := by
  refine ⟨fun header spec names e st' hfit h => (PendingRow.create_error hmem hfit h).1, ?_, ?_, ?_⟩
  · intro header spec names r st' h
    obtain ⟨rfl, hpos, -, -, -⟩ := PendingRow.create_ok h
    exact ⟨rfl, PendingRow.freshIn_of_seeded (PendingRow.create_seeded h).2, hpos⟩
  · intro d rows st' h
    obtain ⟨hrows, hpos, -, -, -⟩ := PendingRow.createAll_ok h
    refine ⟨hrows, fun r hr => PendingRow.freshIn_of_seeded ((PendingRow.mapM_create_all_seeded h).2 r hr), ?_⟩
    rw [hpos, Nat.mul_right_comm]
    rfl
  · intro d e st' hfit h
    obtain ⟨i, spec, rows, st₁, hspec, hprefix, hfail⟩ := Seeding.mapM_error h
    obtain ⟨-, hpos, -, hext, -⟩ := PendingRow.mapM_create_all_ok hprefix
    have hi : i < d.archives.length := (List.getElem?_eq_some_iff.mp hspec).1
    -- the failing archive starts where the archives before it ended
    have hfit₁ : st₁.allocator.position + 2 * cellSize * d.sources.length ≤ ByteStore.offsetMax := by
      have hlen : (d.archives.take i).length = i := by simp [Nat.le_of_lt hi]
      have hstep : 2 * cellSize * d.sources.length * i + 2 * cellSize * d.sources.length =
          16 * d.sources.length * (i + 1) := (Nat.mul_succ (16 * d.sources.length) i).symm
      have hle : 16 * d.sources.length * (i + 1) ≤ 16 * d.sources.length * d.archives.length :=
        Nat.mul_le_mul_left _ hi
      rw [Nat.mul_right_comm 16 d.archives.length] at hfit
      rw [hpos, hlen, Nat.add_assoc, hstep]
      omega
    obtain ⟨rfl, htiming⟩ := PendingRow.create_error (hext.1.trans hmem) hfit₁ hfail
    refine ⟨i, spec, rows, hspec, hprefix, hfail, fun hvalid => ?_⟩
    obtain ⟨hheader, harchives⟩ := Definition.validate_ok hvalid
    obtain ⟨hvspec, hsome⟩ := harchives spec (List.mem_of_getElem? hspec)
    exact htiming hheader hvspec hsome

/-- A definition that passes its checks, with one data source and two
archives, the second of which cannot seed at the earliest 64-bit time: the
first archive's row stays made and seeded when `createAll` fails. -/
theorem createAll_keeps_row_before_failing_archive :
    let d : Definition := ⟨1, Signed64.min, [⟨"x", by decide⟩],
      [⟨.average, ArchiveSpec.defaultXff, 1, 1⟩, ⟨.average, ArchiveSpec.defaultXff, 3, 1⟩]⟩
    d.validate = .ok () ∧
      (PendingRow.createAll d).runOn ⟨⟨.memory, []⟩, ⟨0⟩⟩ = (.error (.timing ⟨1, 3⟩),
        ⟨⟨.memory, [127, 248, 0, 0, 0, 0, 0, 0, 0, 0, 0, 0, 0, 0, 0, 0]⟩, ⟨16⟩⟩) := by
  decide

/-- Seeding from an empty memory store with the allocator at zero. -/
theorem createAll_seeds_archive_by_archive_from_empty :
    let st : Storage := ⟨⟨.memory, []⟩, ⟨0⟩⟩
    st.store.backing = .memory ∧
    ((∀ (header : Header) (spec : ArchiveSpec) (names : List SourceName) (e : StateError)
      (st' : Storage), st.allocator.position + 16 * names.length ≤ ByteStore.offsetMax →
      (PendingRow.create header spec names).runOn st = (.error e, st') → st' = st) ∧
    (∀ (header : Header) (spec : ArchiveSpec) (names : List SourceName) (r : PendingRow)
      (st' : Storage), (PendingRow.create header spec names).runOn st = (.ok r, st') →
      r = ⟨header, spec, layoutEntries names st.allocator.position⟩ ∧ r.FreshIn st'.store ∧
        st'.allocator.position = st.allocator.position + 16 * names.length) ∧
    (∀ (d : Definition) (rows : List PendingRow) (st' : Storage),
      (PendingRow.createAll d).runOn st = (.ok rows, st') →
      rows = layoutRows d.header d.sources d.archives st.allocator.position ∧
        (∀ r ∈ rows, r.FreshIn st'.store) ∧
        st'.allocator.position = st.allocator.position + 16 * d.archives.length * d.sources.length) ∧
    (∀ (d : Definition) (e : StateError) (st' : Storage),
      st.allocator.position + 16 * d.archives.length * d.sources.length ≤ ByteStore.offsetMax →
      (PendingRow.createAll d).runOn st = (.error e, st') →
      ∃ i spec rows, d.archives[i]? = some spec ∧
        (PendingRow.createAll { d with archives := d.archives.take i }).runOn st = (.ok rows, st') ∧
        (PendingRow.create d.header spec d.sources).runOn st' = (.error e, st') ∧
        (d.validate = .ok () → ∃ te, e = .timing te))) :=
  ⟨rfl, createAll_seeds_archive_by_archive _ rfl⟩

end RoundRobin
