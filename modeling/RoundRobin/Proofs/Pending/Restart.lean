import RoundRobin.Proofs.Pending.Layout

/-!
# Restarting over the same bytes

What a state shows, its snapshot, export and diagnostic line, is read from
its two cells and nothing else (`PendingPoint.snapshot_readsOnly`), and so is
what a row shows. After `createAll`, every cell of every row has been seeded,
and writes to the states only let the store grow, so all the cells stay
readable.

`reopenAll_after_createAll`: reopening the definition from the allocator
position `createAll` started at, over any store holding the same bytes, hands
back the very rows `createAll` made, laid out archive by archive and name by
name, and each of them shows what it showed before the restart.
-/

namespace RoundRobin

-- ---------------------------------------------------------------------------
-- What a state shows is read from its cells
-- ---------------------------------------------------------------------------

theorem StoreM.ReadsOnly.runOn_fst {cells : List Nat} {x : StoreM α} (hx : ReadsOnly cells x)
    {s s' : ByteStore} (hagree : ∀ c ∈ cells, s.read c cellSize = s'.read c cellSize) :
    (x.runOn s).1 = (x.runOn s').1 := by
  rw [hx s s' hagree]

namespace PendingPoint

theorem count_readsOnly (p : PendingPoint) : StoreM.ReadsOnly p.cells p.count :=
  (StoreM.readLong_readsOnly (by simp [cells])).bind fun n => by
    split
    · exact StoreM.ReadsOnly.throw _
    · exact StoreM.ReadsOnly.pure _

theorem snapshot_readsOnly (p : PendingPoint) : StoreM.ReadsOnly p.cells p.snapshot :=
  (StoreM.readDouble_readsOnly (by simp [cells])).bind fun _ =>
    p.count_readsOnly.bind fun _ => StoreM.ReadsOnly.pure _

theorem exportTree_readsOnly (p : PendingPoint) (name : SourceName) :
    StoreM.ReadsOnly p.cells (p.exportTree name) :=
  p.snapshot_readsOnly.bind fun _ => StoreM.ReadsOnly.pure _

theorem dump_readsOnly (p : PendingPoint) : StoreM.ReadsOnly p.cells p.dump :=
  p.snapshot_readsOnly.bind fun _ => StoreM.ReadsOnly.pure _

end PendingPoint

namespace PendingRow

theorem cells_subset {r : PendingRow} {e : SourceName × PendingPoint} (he : e ∈ r.entries) :
    ∀ c ∈ e.2.cells, c ∈ r.cells :=
  fun _ hc => List.mem_flatMap.mpr ⟨e, he, hc⟩

theorem exportTree_readsOnly (r : PendingRow) : StoreM.ReadsOnly r.cells r.exportTree := by
  refine (StoreM.ReadsOnly.mapM fun e he => ?_).bind fun _ => StoreM.ReadsOnly.pure _
  obtain ⟨n, p⟩ := e
  exact (p.exportTree_readsOnly n).mono (cells_subset he)

theorem dump_readsOnly (r : PendingRow) : StoreM.ReadsOnly r.cells r.dump := by
  refine (StoreM.ReadsOnly.mapM fun e he => ?_).bind fun _ => StoreM.ReadsOnly.pure _
  obtain ⟨n, p⟩ := e
  exact (p.dump_readsOnly.mono (cells_subset he)).bind fun _ => StoreM.ReadsOnly.pure _

end PendingRow

-- ---------------------------------------------------------------------------
-- Two stores with the same bytes
-- ---------------------------------------------------------------------------

namespace ByteStore

/-- A store holding the same bytes can read a cell too when it is a memory
store, when it has the same backing, or when it is a file its file system
can hold. -/
theorem HasCell.of_bytes_eq {s s' : ByteStore} {c : Nat} (h : s.HasCell c)
    (hbytes : s'.bytes = s.bytes)
    (hfit : s'.backing = .memory ∨ s'.backing = s.backing ∨
      ∃ limit, s'.backing = .file limit ∧ s'.size ≤ limit) :
    s'.HasCell c := by
  have hsize : s'.size = s.size := by simp only [size, hbytes]
  refine ⟨hsize ▸ h.1, fun limit hfile => ?_⟩
  rcases hfit with hmem | hsame | ⟨l, hl, hshort⟩
  · rw [hmem] at hfile
    cases hfile
  · exact h.2 limit (hsame.symm.trans hfile)
  · rw [hl] at hfile
    cases hfile
    have := h.1
    simp only [cellSize] at *
    omega

theorem read_eq_of_bytes_eq {s s' : ByteStore} {c : Nat} (h : s.HasCell c) (h' : s'.HasCell c)
    (hbytes : s'.bytes = s.bytes) : s'.read c cellSize = s.read c cellSize := by
  rw [read_of_hasCell h, read_of_hasCell h', hbytes]

end ByteStore

-- ---------------------------------------------------------------------------
-- Writes through the names
-- ---------------------------------------------------------------------------

/-- A write to the state of one data source, found by name in one row, the
way a caller reaches it: the accumulated value or the unknown step count. -/
inductive Update where
  | value (row : Nat) (name : String) (x : Binary64)
  | count (row : Nat) (name : String) (n : Nat)

def Update.run (rows : List PendingRow) : Update → StoreM Unit
  | .value a name x =>
    match rows[a]?.bind fun r => (r.point name).toOption with
    | some p => p.setValue x
    | none => pure ()
  | .count a name n =>
    match rows[a]?.bind fun r => (r.point name).toOption with
    | some p => p.setCount n
    | none => pure ()

/-- The store after running updates in order, each from where the last left
off, whether it succeeded or not. -/
def Update.runAll (rows : List PendingRow) (updates : List Update) (s : ByteStore) : ByteStore :=
  updates.foldl (fun s u => ((u.run rows).runOn s).2) s

theorem Update.run_grows (rows : List PendingRow) (u : Update) : StoreM.Grows (u.run rows) := by
  cases u with
  | value a name x =>
    simp only [run]
    split
    · exact StoreM.writeDouble_grows _ _
    · exact StoreM.Grows.pure ()
  | count a name n =>
    simp only [run]
    split
    · exact (StoreM.Grows.ofExcept _).bind fun _ => StoreM.writeLong_grows _ _
    · exact StoreM.Grows.pure ()

theorem Update.runAll_extends (rows : List PendingRow) :
    ∀ (updates : List Update) (s : ByteStore), s.Extends (runAll rows updates s)
  | [], s => ByteStore.Extends.refl s
  | u :: rest, s => (run_grows rows u s).trans (runAll_extends rows rest _)

-- ---------------------------------------------------------------------------
-- Restart
-- ---------------------------------------------------------------------------

theorem slot_arith (p a j D : Nat) :
    p + 2 * cellSize * D * a + 2 * cellSize * j = p + 16 * (a * D + j) := by
  simp only [cellSize, Nat.mul_add, Nat.mul_assoc, Nat.mul_comm D a]
  omega

/-- After `createAll` from allocator position `p` and any writes through the
names, reopening the definition from `p` over a store holding the same bytes
gives back the same rows, with the allocator at `p + 16·A·D` as after
creating. The point of archive `a` and data source `j` has its value cell at
`p + 16·(a·D + j)` and its count cell right after it; every state's snapshot
and every row's export and dump read the same as before. The new store is a
memory store, a store of the old kind, or a file its file system can hold. -/
theorem reopenAll_after_createAll (d : Definition) (store : ByteStore) (p : Nat)
    {rows : List PendingRow} {st : Storage}
    (hcreate : (PendingRow.createAll d).runOn ⟨store, ⟨p⟩⟩ = (.ok rows, st))
    (updates : List Update) (store' : ByteStore)
    (hbytes : store'.bytes = (Update.runAll rows updates st.store).bytes)
    (hfit : store'.backing = .memory ∨ store'.backing = store.backing ∨
      ∃ limit, store'.backing = .file limit ∧ store'.size ≤ limit) :
    st.allocator.position = p + 16 * d.archives.length * d.sources.length ∧
    (PendingRow.reopenAll d).runOn ⟨store', ⟨p⟩⟩ =
      (.ok rows, ⟨store', ⟨p + 16 * d.archives.length * d.sources.length⟩⟩) ∧
    (∀ (a j : Nat) (spec : ArchiveSpec) (n : SourceName),
      d.archives[a]? = some spec → d.sources[j]? = some n →
      ∃ r, rows[a]? = some r ∧ r.header = d.header ∧ r.spec = spec ∧
        r.entries[j]? = some (n, ⟨p + 16 * (a * d.sources.length + j),
          p + 16 * (a * d.sources.length + j) + 8⟩)) ∧
    ∀ r ∈ rows,
      (r.exportTree.runOn store').1 = (r.exportTree.runOn (Update.runAll rows updates st.store)).1 ∧
      (r.dump.runOn store').1 = (r.dump.runOn (Update.runAll rows updates st.store)).1 ∧
      ∀ e ∈ r.entries, (e.2.snapshot.runOn store').1 =
        (e.2.snapshot.runOn (Update.runAll rows updates st.store)).1 := by
  obtain ⟨hrows, hpos, hroom, hext, hcells⟩ := PendingRow.createAll_ok hcreate
  have hlen : 2 * cellSize * d.sources.length * d.archives.length =
      16 * d.archives.length * d.sources.length := by
    rw [Nat.mul_right_comm]
    rfl
  -- every cell of the rows is readable after the writes, and in the new store
  have hwritten := Update.runAll_extends rows updates st.store
  have hold : ∀ c ∈ rows.flatMap PendingRow.cells,
      (Update.runAll rows updates st.store).HasCell c :=
    fun c hc => (hcells c hc).extend hwritten
  have hfit' : store'.backing = .memory ∨
      store'.backing = (Update.runAll rows updates st.store).backing ∨
      ∃ limit, store'.backing = .file limit ∧ store'.size ≤ limit := by
    rw [hwritten.1, hext.1]
    exact hfit
  have hagree : ∀ r ∈ rows, ∀ c ∈ r.cells, store'.read c cellSize =
      (Update.runAll rows updates st.store).read c cellSize := by
    intro r hr c hc
    have h := hold c (List.mem_flatMap.mpr ⟨r, hr, hc⟩)
    exact ByteStore.read_eq_of_bytes_eq h (h.of_bytes_eq hbytes hfit') hbytes
  refine ⟨hpos.trans (by rw [hlen]), ?_, ?_, ?_⟩
  · -- the same cells fitted below the largest offset when they were created
    rw [PendingRow.reopenAll_runOn d ⟨store', ⟨p⟩⟩ hroom, hrows, hlen]
  · intro a j spec n hspec hn
    refine ⟨_, by rw [hrows, getElem?_layoutRows, hspec]; rfl, rfl, rfl, ?_⟩
    rw [getElem?_layoutEntries, hn, Option.map_some, slot_arith]
    rfl
  · intro r hr
    refine ⟨r.exportTree_readsOnly.runOn_fst (hagree r hr), r.dump_readsOnly.runOn_fst (hagree r hr),
      fun e he => e.2.snapshot_readsOnly.runOn_fst fun c hc => ?_⟩
    exact hagree r hr c (PendingRow.cells_subset he c hc)

/-- One data source and one archive created in memory from position 0, the
unknown step count set to 7 by name, and the bytes reopened as a file on a
file system whose largest file is 4096 bytes. -/
theorem reopenAll_after_createAll_as_file :
    let d : Definition := ⟨60, 1700000000, [⟨"rx", by decide⟩],
      [⟨.average, ArchiveSpec.defaultXff, 5, 10⟩]⟩
    let rows := layoutRows d.header d.sources d.archives 0
    let st : Storage := ⟨⟨.memory, [127, 248, 0, 0, 0, 0, 0, 0, 0, 0, 0, 0, 0, 0, 0, 3]⟩, ⟨16⟩⟩
    let updates := [Update.count 0 "rx" 7]
    let store' : ByteStore := ⟨.file 4096, [127, 248, 0, 0, 0, 0, 0, 0, 0, 0, 0, 0, 0, 0, 0, 7]⟩
    (PendingRow.createAll d).runOn ⟨⟨.memory, []⟩, ⟨0⟩⟩ = (.ok rows, st) ∧
    store'.bytes = (Update.runAll rows updates st.store).bytes ∧
    (store'.backing = .memory ∨ store'.backing = Backing.memory ∨
      ∃ limit, store'.backing = .file limit ∧ store'.size ≤ limit) ∧
    (st.allocator.position = 0 + 16 * d.archives.length * d.sources.length ∧
    (PendingRow.reopenAll d).runOn ⟨store', ⟨0⟩⟩ =
      (.ok rows, ⟨store', ⟨0 + 16 * d.archives.length * d.sources.length⟩⟩) ∧
    (∀ (a j : Nat) (spec : ArchiveSpec) (n : SourceName),
      d.archives[a]? = some spec → d.sources[j]? = some n →
      ∃ r, rows[a]? = some r ∧ r.header = d.header ∧ r.spec = spec ∧
        r.entries[j]? = some (n, ⟨0 + 16 * (a * d.sources.length + j),
          0 + 16 * (a * d.sources.length + j) + 8⟩)) ∧
    ∀ r ∈ rows,
      (r.exportTree.runOn store').1 = (r.exportTree.runOn (Update.runAll rows updates st.store)).1 ∧
      (r.dump.runOn store').1 = (r.dump.runOn (Update.runAll rows updates st.store)).1 ∧
      ∀ e ∈ r.entries, (e.2.snapshot.runOn store').1 =
        (e.2.snapshot.runOn (Update.runAll rows updates st.store)).1) := by
  intro d rows st updates store'
  have hcreate : (PendingRow.createAll d).runOn ⟨⟨.memory, []⟩, ⟨0⟩⟩ = (.ok rows, st) := by
    decide
  have hbytes : store'.bytes = (Update.runAll rows updates st.store).bytes := by decide
  have hfit : store'.backing = .memory ∨ store'.backing = Backing.memory ∨
      ∃ limit, store'.backing = .file limit ∧ store'.size ≤ limit := .inr (.inr ⟨4096, rfl, by decide⟩)
  exact ⟨hcreate, hbytes, hfit,
    reopenAll_after_createAll d ⟨.memory, []⟩ 0 hcreate updates store' hbytes hfit⟩

end RoundRobin
