import RoundRobin.Proofs.Store.Frame
import RoundRobin.Pending.Row

/-!
# Where archive state lives

The allocator hands out cells in the order states are made. A pending point
takes two consecutive cells, the value cell first; a row takes one point per
data source in the order of the names; the rows of a definition follow one
another archive by archive. Creating and reopening walk this same order, so
they hand out the same cells (`layoutEntries`, `layoutRows`): creating also
seeds every cell, so all of them can be read afterwards, while reopening
writes nothing and fails only when the allocator position would overflow 64
bits (`Fits`). The cells of a layout are consecutive slots from where the
allocator stood (`cells_layoutRows`).

Every seeding program here only moves the allocator forward
(`Seeding.Advances`), also when it fails part way.
-/

namespace RoundRobin

-- ---------------------------------------------------------------------------
-- Consecutive cells
-- ---------------------------------------------------------------------------

def slots (q n : Nat) : List Nat := (List.range n).map fun i => q + cellSize * i

/-- Two cells that share no byte. -/
def Apart (a b : Nat) : Prop := a + cellSize ≤ b ∨ b + cellSize ≤ a

theorem Apart.symm {a b : Nat} (h : Apart a b) : Apart b a := Or.symm h

theorem slots_add (q m n : Nat) : slots q (m + n) = slots q m ++ slots (q + cellSize * m) n := by
  simp only [slots, List.range_add, List.map_append, List.map_map]
  congr 1
  apply List.map_congr_left
  intro i _
  simp only [Function.comp]
  rw [Nat.mul_add, Nat.add_assoc]

theorem mem_slots {q n c : Nat} (hc : c ∈ slots q n) : q ≤ c ∧ c + cellSize ≤ q + cellSize * n := by
  obtain ⟨i, hi, rfl⟩ := List.mem_map.mp hc
  have hi : i < n := List.mem_range.mp hi
  have : cellSize * i + cellSize ≤ cellSize * n := by
    rw [← Nat.mul_succ]
    exact Nat.mul_le_mul_left _ hi
  omega

theorem pairwise_slots (q n : Nat) : (slots q n).Pairwise Apart := by
  rw [List.pairwise_iff_getElem]
  intro i j hi hj hij
  simp only [slots, List.getElem_map, List.getElem_range]
  left
  have : cellSize * i + cellSize ≤ cellSize * j := by
    rw [← Nat.mul_succ]
    exact Nat.mul_le_mul_left _ hij
  omega

/-- `size` bytes from offset `q` end within 64-bit offsets; taking nothing
always fits. -/
def Fits (q size : Nat) : Prop := size = 0 ∨ q + size ≤ ByteStore.offsetMax

theorem Fits.add {q a b : Nat} (ha : Fits q a) (hb : Fits (q + a) b) : Fits q (a + b) := by
  unfold Fits at *
  omega

theorem Fits.left {q a b : Nat} (h : Fits q (a + b)) : Fits q a := by
  unfold Fits at *
  omega

theorem Fits.right {q a b : Nat} (h : Fits q (a + b)) : Fits (q + a) b := by
  unfold Fits at *
  omega

theorem Fits.le {q a : Nat} (h : Fits q a) (ha : a ≠ 0) : q + a ≤ ByteStore.offsetMax :=
  h.resolve_left ha

theorem mul_length_cons (k : Nat) (a : α) (l : List α) :
    k * (a :: l).length = k + k * l.length := by
  rw [List.length_cons, Nat.mul_succ, Nat.add_comm]

namespace PendingPoint

def cells (p : PendingPoint) : List Nat := [p.valueCell, p.countCell]

def slotAt (q : Nat) : PendingPoint := ⟨q, q + cellSize⟩

theorem cells_slotAt (q : Nat) : (slotAt q).cells = slots q 2 := rfl

end PendingPoint

def PendingRow.cells (r : PendingRow) : List Nat := r.entries.flatMap (·.2.cells)

-- ---------------------------------------------------------------------------
-- The layout
-- ---------------------------------------------------------------------------

def layoutEntries : List SourceName → Nat → List (SourceName × PendingPoint)
  | [], _ => []
  | n :: rest, q => (n, PendingPoint.slotAt q) :: layoutEntries rest (q + 2 * cellSize)

def layoutRows (header : Header) (names : List SourceName) :
    List ArchiveSpec → Nat → List PendingRow
  | [], _ => []
  | a :: rest, q =>
    ⟨header, a, layoutEntries names q⟩ :: layoutRows header names rest (q + 2 * cellSize * names.length)

theorem getElem?_layoutEntries :
    ∀ (names : List SourceName) (q j : Nat),
      (layoutEntries names q)[j]? = names[j]?.map fun n => (n, .slotAt (q + 2 * cellSize * j))
  | [], _, _ => rfl
  | _ :: _, _, 0 => rfl
  | _ :: rest, q, j + 1 => by
    rw [layoutEntries, List.getElem?_cons_succ, getElem?_layoutEntries rest, List.getElem?_cons_succ,
      Nat.mul_succ, Nat.add_comm (2 * cellSize * j), ← Nat.add_assoc]

theorem getElem?_layoutRows (header : Header) (names : List SourceName) :
    ∀ (specs : List ArchiveSpec) (q a : Nat),
      (layoutRows header names specs q)[a]? =
        specs[a]?.map fun spec => ⟨header, spec, layoutEntries names (q + 2 * cellSize * names.length * a)⟩
  | [], _, _ => rfl
  | _ :: _, _, 0 => rfl
  | _ :: rest, q, a + 1 => by
    rw [layoutRows, List.getElem?_cons_succ, getElem?_layoutRows header names rest,
      List.getElem?_cons_succ, Nat.mul_succ, Nat.add_assoc, Nat.add_comm _ (2 * cellSize * names.length)]

theorem names_layoutEntries :
    ∀ (names : List SourceName) (q : Nat), (layoutEntries names q).map (·.1) = names
  | [], _ => rfl
  | n :: rest, q => by rw [layoutEntries, List.map_cons, names_layoutEntries rest]

theorem names_of_mem_layoutRows {header : Header} {names : List SourceName} :
    ∀ {specs : List ArchiveSpec} {q : Nat} {r : PendingRow}, r ∈ layoutRows header names specs q →
      r.entries.map (·.1) = names
  | [], _, _, h => by cases h
  | a :: rest, q, r, h => by
    rcases List.mem_cons.mp h with rfl | h
    · exact names_layoutEntries names q
    · exact names_of_mem_layoutRows h

theorem cells_layoutEntries :
    ∀ (names : List SourceName) (q : Nat),
      (layoutEntries names q).flatMap (·.2.cells) = slots q (2 * names.length)
  | [], _ => rfl
  | _ :: rest, q => by
    rw [layoutEntries, List.flatMap_cons, cells_layoutEntries rest, PendingPoint.cells_slotAt,
      List.length_cons, Nat.mul_succ, Nat.add_comm _ 2, slots_add, Nat.mul_comm cellSize 2]

theorem cells_layoutRows (header : Header) (names : List SourceName) :
    ∀ (specs : List ArchiveSpec) (q : Nat),
      (layoutRows header names specs q).flatMap PendingRow.cells =
        slots q (2 * names.length * specs.length)
  | [], _ => rfl
  | _ :: rest, q => by
    rw [layoutRows, List.flatMap_cons, cells_layoutRows header names rest, PendingRow.cells,
      cells_layoutEntries, List.length_cons, Nat.mul_succ, Nat.add_comm _ (2 * names.length),
      slots_add, Nat.mul_assoc, Nat.mul_left_comm cellSize 2]

-- ---------------------------------------------------------------------------
-- Running seeding programs
-- ---------------------------------------------------------------------------

namespace Seeding

theorem runOn_bind_ok {x : Seeding α} {f : α → Seeding β} {st st' : Storage} {a : α}
    (h : x.runOn st = (.ok a, st')) : (x >>= f).runOn st = (f a).runOn st' :=
  run_bind_ok h

theorem runOn_bind_error {x : Seeding α} {f : α → Seeding β} {st st' : Storage} {e : StateError}
    (h : x.runOn st = (.error e, st')) : (x >>= f).runOn st = (.error e, st') :=
  run_bind_error h

theorem runOn_bind_eq_ok {x : Seeding α} {f : α → Seeding β} {st st'' : Storage} {b : β}
    (h : (x >>= f).runOn st = (.ok b, st'')) :
    ∃ a st', x.runOn st = (.ok a, st') ∧ (f a).runOn st' = (.ok b, st'') := by
  rcases hx : x.runOn st with ⟨r, st'⟩
  cases r with
  | error e => rw [runOn_bind_error hx] at h; cases h
  | ok a => exact ⟨a, st', rfl, (runOn_bind_ok hx).symm.trans h⟩

theorem runOn_bind_pure_eq_ok {x : Seeding α} {g : α → β} {st st' : Storage} {b : β}
    (h : (x >>= fun a => pure (g a)).runOn st = (.ok b, st')) :
    ∃ a, x.runOn st = (.ok a, st') ∧ b = g a := by
  obtain ⟨a, st₁, hx, hpure⟩ := runOn_bind_eq_ok h
  obtain ⟨hb, rfl⟩ := Prod.mk.inj hpure
  cases hb
  exact ⟨a, hx, rfl⟩

theorem mapM_cons_eq_ok {f : α → Seeding β} {a : α} {as : List α} {st st' : Storage}
    {bs : List β} (h : ((a :: as).mapM f).runOn st = (.ok bs, st')) :
    ∃ b st₁ bs', (f a).runOn st = (.ok b, st₁) ∧ (as.mapM f).runOn st₁ = (.ok bs', st') ∧
      bs = b :: bs' := by
  rw [List.mapM_cons] at h
  obtain ⟨b, st₁, hfirst, h⟩ := runOn_bind_eq_ok h
  obtain ⟨bs', hrest, rfl⟩ := runOn_bind_pure_eq_ok h
  exact ⟨b, st₁, bs', hfirst, hrest, rfl⟩

theorem allocate_runOn (n : Nat) (st : Storage) :
    (allocate n).runOn st =
      if st.allocator.position + n ≤ ByteStore.offsetMax then
        (.ok st.allocator.position, { st with allocator := ⟨st.allocator.position + n⟩ })
      else (.error .overflow, st) := by
  simp only [allocate, runOn, run_bind_ok (run_get_state st), Allocator.allocate]
  by_cases h : st.allocator.position + n ≤ ByteStore.offsetMax
  · simp only [if_pos h]
    rfl
  · simp only [if_neg h]
    rfl

theorem allocate_bind_runOn {n : Nat} {f : Nat → Seeding β} {st : Storage}
    (h : st.allocator.position + n ≤ ByteStore.offsetMax) :
    (allocate n >>= f).runOn st =
      (f st.allocator.position).runOn { st with allocator := ⟨st.allocator.position + n⟩ } := by
  rw [runOn_bind_ok]
  rw [allocate_runOn, if_pos h]

theorem allocate_ok {n o : Nat} {st st' : Storage} (h : (allocate n).runOn st = (.ok o, st')) :
    o = st.allocator.position ∧ st' = { st with allocator := ⟨st.allocator.position + n⟩ } ∧
      st.allocator.position + n ≤ ByteStore.offsetMax := by
  rw [allocate_runOn] at h
  split at h
  · next hfit =>
    cases h
    exact ⟨rfl, rfl, hfit⟩
  · cases h

theorem onStore_runOn_ok {x : StoreM α} {st : Storage} {a : α} {s' : ByteStore}
    (h : x.runOn st.store = (.ok a, s')) :
    (onStore x).runOn st = (.ok a, { st with store := s' }) := by
  simp only [onStore, runOn, run_bind_ok (run_get_state st)]
  rw [show StoreM.runOn x st.store = _ from h]
  rfl

theorem onStore_runOn_error {x : StoreM α} {st : Storage} {e : StoreError} {s' : ByteStore}
    (h : x.runOn st.store = (.error e, s')) :
    (onStore x).runOn st = (.error (.store e), { st with store := s' }) := by
  simp only [onStore, runOn, run_bind_ok (run_get_state st)]
  rw [show StoreM.runOn x st.store = _ from h]
  rfl

theorem onStore_ok {x : StoreM α} {st st' : Storage} {a : α}
    (h : (onStore x).runOn st = (.ok a, st')) :
    x.runOn st.store = (.ok a, st'.store) ∧ st' = { st with store := st'.store } := by
  rcases hx : x.runOn st.store with ⟨r, s'⟩
  cases r with
  | error e => rw [onStore_runOn_error hx] at h; cases h
  | ok b =>
    rw [onStore_runOn_ok hx] at h
    cases h
    exact ⟨rfl, rfl⟩

theorem ofTiming_ok {r : Except Lattice.TimingError α} {st st' : Storage} {a : α}
    (h : (ofTiming r).runOn st = (.ok a, st')) : r = .ok a ∧ st' = st := by
  cases r with
  | error e => cases h
  | ok b =>
    cases h
    exact ⟨rfl, rfl⟩

/-- A program that never moves the allocator back, whether it succeeds or
not. -/
def Advances (x : Seeding α) : Prop :=
  ∀ st : Storage, st.allocator.position ≤ (x.runOn st).2.allocator.position

theorem Advances.pure (a : α) : Advances (pure a : Seeding α) := fun _ => Nat.le_refl _

theorem Advances.throw (e : StateError) : Advances (throw e : Seeding α) := fun _ => Nat.le_refl _

theorem Advances.bind {x : Seeding α} {f : α → Seeding β} (hx : Advances x)
    (hf : ∀ a, Advances (f a)) : Advances (x >>= f) := by
  intro st
  have h := hx st
  rcases hr : x.runOn st with ⟨r, st'⟩
  rw [hr] at h
  cases r with
  | error e => rw [runOn_bind_error hr]; exact h
  | ok a => rw [runOn_bind_ok hr]; exact Nat.le_trans h (hf a st')

theorem Advances.mapM {l : List α} {f : α → Seeding β} (hf : ∀ a ∈ l, Advances (f a)) :
    Advances (l.mapM f) := by
  induction l with
  | nil => exact Advances.pure []
  | cons a rest ih =>
    rw [List.mapM_cons]
    exact (hf a List.mem_cons_self).bind fun b =>
      (ih fun a' ha' => hf a' (List.mem_cons_of_mem a ha')).bind fun bs => Advances.pure _

theorem allocate_advances (n : Nat) : Advances (allocate n) := by
  intro st
  rw [allocate_runOn]
  split
  · exact Nat.le_add_right _ n
  · exact Nat.le_refl _

theorem onStore_advances (x : StoreM α) : Advances (onStore x) := by
  intro st
  rcases hx : x.runOn st.store with ⟨r, s'⟩
  cases r with
  | error e => exact Nat.le_of_eq (by rw [onStore_runOn_error hx])
  | ok a => exact Nat.le_of_eq (by rw [onStore_runOn_ok hx])

theorem ofTiming_advances (r : Except Lattice.TimingError α) : Advances (ofTiming r) := by
  cases r with
  | error e => exact Advances.throw _
  | ok a => exact Advances.pure a

end Seeding

-- ---------------------------------------------------------------------------
-- Points
-- ---------------------------------------------------------------------------

namespace PendingPoint

theorem seed_inv {p : PendingPoint} {k : Nat} {s s' : ByteStore}
    (h : (p.seed k).runOn s = (.ok (), s')) :
    ∃ n s₁, storedCount k = .ok n ∧ (StoreM.writeLong p.countCell n).runOn s = (.ok (), s₁) ∧
      (StoreM.writeDouble p.valueCell Binary64.nan).runOn s₁ = (.ok (), s') := by
  obtain ⟨_, s₁, hcount, hvalue⟩ := StoreM.runOn_bind_eq_ok h
  obtain ⟨n, s₀, hstored, hlong⟩ := StoreM.runOn_bind_eq_ok hcount
  rw [StoreM.runOn_ofExcept, Prod.mk.injEq] at hstored
  obtain ⟨hn, rfl⟩ := hstored
  exact ⟨n, s₁, hn, hlong, hvalue⟩

theorem seed_ok {p : PendingPoint} {k : Nat} {s s' : ByteStore}
    (h : (p.seed k).runOn s = (.ok (), s')) :
    s.Extends s' ∧ s'.HasCell p.valueCell ∧ s'.HasCell p.countCell := by
  obtain ⟨n, s₁, -, hlong, hvalue⟩ := seed_inv h
  obtain ⟨hext₁, hcell₁⟩ := StoreM.writeLong_ok hlong
  obtain ⟨hext₂, hcell₂⟩ := StoreM.writeDouble_ok hvalue
  exact ⟨hext₁.trans hext₂, hcell₂, hcell₁.extend hext₂⟩

theorem create_inv {step arcStep lastUpdate : Int} {st st' : Storage} {p : PendingPoint}
    (h : (create step arcStep lastUpdate).runOn st = (.ok p, st')) :
    ∃ k, Lattice.unknownSteps step arcStep lastUpdate = .ok k ∧ p = slotAt st.allocator.position ∧
      st'.allocator.position = st.allocator.position + 2 * cellSize ∧
      st.allocator.position + 2 * cellSize ≤ ByteStore.offsetMax ∧
      (p.seed k).runOn st.store = (.ok (), st'.store) := by
  unfold create at h
  obtain ⟨k, st₀, htiming, h⟩ := Seeding.runOn_bind_eq_ok h
  have hk := (Seeding.ofTiming_ok htiming).1
  rw [(Seeding.ofTiming_ok htiming).2] at h
  obtain ⟨v, st₁, hv, h⟩ := Seeding.runOn_bind_eq_ok h
  obtain ⟨rfl, rfl, -⟩ := Seeding.allocate_ok hv
  obtain ⟨c, st₂, hc, h⟩ := Seeding.runOn_bind_eq_ok h
  obtain ⟨rfl, rfl, hfit⟩ := Seeding.allocate_ok hc
  obtain ⟨_, st₃, hseed, h⟩ := Seeding.runOn_bind_eq_ok h
  obtain ⟨hseed, hst₃⟩ := Seeding.onStore_ok hseed
  obtain ⟨hp, rfl⟩ := Prod.mk.inj h
  cases hp
  have hpos : st₃.allocator.position = st.allocator.position + cellSize + cellSize := by
    rw [hst₃]
  have hfit : st.allocator.position + cellSize + cellSize ≤ ByteStore.offsetMax := hfit
  exact ⟨k, hk, rfl, by omega, by omega, hseed⟩

theorem create_ok {step arcStep lastUpdate : Int} {st st' : Storage} {p : PendingPoint}
    (h : (create step arcStep lastUpdate).runOn st = (.ok p, st')) :
    p = slotAt st.allocator.position ∧
      st'.allocator.position = st.allocator.position + 2 * cellSize ∧
      st.allocator.position + 2 * cellSize ≤ ByteStore.offsetMax ∧
      st.store.Extends st'.store ∧ ∀ c ∈ p.cells, st'.store.HasCell c := by
  obtain ⟨k, -, rfl, hpos, hfit, hseed⟩ := create_inv h
  obtain ⟨hext, hvalue, hcount⟩ := seed_ok hseed
  refine ⟨rfl, hpos, hfit, hext, ?_⟩
  intro c hc
  simp only [cells, List.mem_cons, List.not_mem_nil, or_false] at hc
  rcases hc with rfl | rfl
  · exact hvalue
  · exact hcount

theorem create_advances (step arcStep lastUpdate : Int) :
    Seeding.Advances (create step arcStep lastUpdate) :=
  (Seeding.ofTiming_advances _).bind fun _ => (Seeding.allocate_advances _).bind fun _ =>
    (Seeding.allocate_advances _).bind fun _ => (Seeding.onStore_advances _).bind fun _ =>
      Seeding.Advances.pure _

theorem reopen_runOn {st : Storage} (hfit : st.allocator.position + 2 * cellSize ≤ ByteStore.offsetMax) :
    reopen.runOn st =
      (.ok (slotAt st.allocator.position),
        { st with allocator := ⟨st.allocator.position + 2 * cellSize⟩ }) := by
  unfold reopen
  rw [Seeding.allocate_bind_runOn, Seeding.allocate_bind_runOn]
  · show (Except.ok _, _) = _
    congr 3
  all_goals (simp only [cellSize] at *; omega)

theorem reopen_ok {st st' : Storage} {p : PendingPoint} (h : reopen.runOn st = (.ok p, st')) :
    p = slotAt st.allocator.position ∧ st'.allocator.position = st.allocator.position + 2 * cellSize := by
  unfold reopen at h
  obtain ⟨v, st₁, hv, h⟩ := Seeding.runOn_bind_eq_ok h
  obtain ⟨rfl, rfl, -⟩ := Seeding.allocate_ok hv
  obtain ⟨c, st₂, hc, h⟩ := Seeding.runOn_bind_eq_ok h
  obtain ⟨rfl, rfl, -⟩ := Seeding.allocate_ok hc
  obtain ⟨hp, rfl⟩ := Prod.mk.inj h
  cases hp
  exact ⟨rfl, by show _ + cellSize + cellSize = _; omega⟩

theorem reopen_advances : Seeding.Advances reopen :=
  (Seeding.allocate_advances _).bind fun _ => (Seeding.allocate_advances _).bind fun _ =>
    Seeding.Advances.pure _

end PendingPoint

-- ---------------------------------------------------------------------------
-- Rows
-- ---------------------------------------------------------------------------

namespace PendingRow

theorem ofConfig_ok {r : Except ConfigError α} {st st' : Storage} {a : α}
    (h : (ofConfig r).runOn st = (.ok a, st')) : r = .ok a ∧ st' = st := by
  cases r with
  | error e => cases h
  | ok b =>
    cases h
    exact ⟨rfl, rfl⟩

theorem ofConfig_advances (r : Except ConfigError α) : Seeding.Advances (ofConfig r) := by
  cases r with
  | error e => exact Seeding.Advances.throw _
  | ok a => exact Seeding.Advances.pure a

theorem mapM_create_ok {step arc lastUpdate : Int} :
    ∀ {names : List SourceName} {st st' : Storage} {es : List (SourceName × PendingPoint)},
      (names.mapM fun n => do
          let p ← PendingPoint.create step arc lastUpdate
          return (n, p)).runOn st = (.ok es, st') →
      es = layoutEntries names st.allocator.position ∧
        st'.allocator.position = st.allocator.position + 2 * cellSize * names.length ∧
        Fits st.allocator.position (2 * cellSize * names.length) ∧
        st.store.Extends st'.store ∧ ∀ c ∈ es.flatMap (·.2.cells), st'.store.HasCell c
  | [], st, st', es, h => by
    cases h
    exact ⟨rfl, rfl, .inl rfl, ByteStore.Extends.refl _, by simp⟩
  | n :: rest, st, st', es, h => by
    obtain ⟨e, st₁, es', hfirst, hrest, rfl⟩ := Seeding.mapM_cons_eq_ok h
    obtain ⟨p, hcreate, rfl⟩ := Seeding.runOn_bind_pure_eq_ok hfirst
    obtain ⟨rfl, hpos, hfit, hext, hcells⟩ := PendingPoint.create_ok hcreate
    obtain ⟨rfl, hpos', hfit', hext', hcells'⟩ := mapM_create_ok hrest
    have hlen := mul_length_cons (2 * cellSize) n rest
    refine ⟨by rw [layoutEntries, hpos], ?_, ?_, hext.trans hext', ?_⟩
    · rw [hpos', hpos, hlen]
      omega
    · rw [hpos] at hfit'
      rw [hlen]
      exact Fits.add (.inr hfit) hfit'
    · intro c hc
      rw [List.flatMap_cons, List.mem_append] at hc
      rcases hc with hc | hc
      · exact (hcells c hc).extend hext'
      · exact hcells' c hc

theorem create_inv {header : Header} {spec : ArchiveSpec} {names : List SourceName}
    {st st' : Storage} {r : PendingRow} (h : (create header spec names).runOn st = (.ok r, st')) :
    ∃ arc es, spec.arcStep header.step = some arc ∧
      (names.mapM fun n => do
          let p ← PendingPoint.create header.step arc header.lastUpdate
          return (n, p)).runOn st = (.ok es, st') ∧ r = ⟨header, spec, es⟩ := by
  unfold create at h
  obtain ⟨_, st₁, hheader, h⟩ := Seeding.runOn_bind_eq_ok h
  rw [(ofConfig_ok hheader).2] at h
  obtain ⟨_, st₂, hspec, h⟩ := Seeding.runOn_bind_eq_ok h
  rw [(ofConfig_ok hspec).2] at h
  split at h
  · rename_i arc harc
    obtain ⟨es, hes, rfl⟩ := Seeding.runOn_bind_pure_eq_ok h
    exact ⟨arc, es, harc, hes, rfl⟩
  · cases h

theorem create_ok {header : Header} {spec : ArchiveSpec} {names : List SourceName}
    {st st' : Storage} {r : PendingRow} (h : (create header spec names).runOn st = (.ok r, st')) :
    r = ⟨header, spec, layoutEntries names st.allocator.position⟩ ∧
      st'.allocator.position = st.allocator.position + 2 * cellSize * names.length ∧
      Fits st.allocator.position (2 * cellSize * names.length) ∧
      st.store.Extends st'.store ∧ ∀ c ∈ r.cells, st'.store.HasCell c := by
  obtain ⟨arc, es, -, hes, rfl⟩ := create_inv h
  obtain ⟨rfl, hrest⟩ := mapM_create_ok hes
  exact ⟨rfl, hrest⟩

theorem create_advances (header : Header) (spec : ArchiveSpec) (names : List SourceName) :
    Seeding.Advances (create header spec names) := by
  unfold create
  refine (ofConfig_advances _).bind fun _ => (ofConfig_advances _).bind fun _ => ?_
  split
  · exact (Seeding.Advances.mapM fun n _ =>
      (PendingPoint.create_advances _ _ _).bind fun _ => Seeding.Advances.pure _).bind
        fun _ => Seeding.Advances.pure _
  · exact Seeding.Advances.throw _

theorem mapM_reopen_runOn :
    ∀ (names : List SourceName) (st : Storage),
      Fits st.allocator.position (2 * cellSize * names.length) →
      (names.mapM fun n => do return (n, ← PendingPoint.reopen)).runOn st =
        (.ok (layoutEntries names st.allocator.position),
          { st with allocator := ⟨st.allocator.position + 2 * cellSize * names.length⟩ })
  | [], st, _ => rfl
  | n :: rest, st, hfit => by
    have hlen := mul_length_cons (2 * cellSize) n rest
    rw [hlen] at hfit
    have hfirst : (do return (n, ← PendingPoint.reopen) : Seeding _).runOn st =
        (.ok (n, .slotAt st.allocator.position),
          { st with allocator := ⟨st.allocator.position + 2 * cellSize⟩ }) := by
      rw [Seeding.runOn_bind_ok (PendingPoint.reopen_runOn (hfit.left.le (by decide)))]
      rfl
    rw [List.mapM_cons, Seeding.runOn_bind_ok hfirst, Seeding.runOn_bind_ok (mapM_reopen_runOn rest
      { st with allocator := ⟨st.allocator.position + 2 * cellSize⟩ } hfit.right)]
    simp only [layoutEntries, List.length_cons, Nat.mul_succ]
    congr 3
    omega

theorem mapM_reopen_ok :
    ∀ {names : List SourceName} {st st' : Storage} {es : List (SourceName × PendingPoint)},
      (names.mapM fun n => do return (n, ← PendingPoint.reopen)).runOn st = (.ok es, st') →
      es = layoutEntries names st.allocator.position ∧
        st'.allocator.position = st.allocator.position + 2 * cellSize * names.length
  | [], st, st', es, h => by
    cases h
    exact ⟨rfl, rfl⟩
  | n :: rest, st, st', es, h => by
    obtain ⟨e, st₁, es', hfirst, hrest, rfl⟩ := Seeding.mapM_cons_eq_ok h
    obtain ⟨p, hreopen, rfl⟩ := Seeding.runOn_bind_pure_eq_ok hfirst
    obtain ⟨rfl, hpos⟩ := PendingPoint.reopen_ok hreopen
    obtain ⟨rfl, hpos'⟩ := mapM_reopen_ok hrest
    refine ⟨by rw [layoutEntries, hpos], ?_⟩
    rw [hpos', hpos, List.length_cons, Nat.mul_succ]
    omega

theorem reopen_runOn (header : Header) (spec : ArchiveSpec) (names : List SourceName)
    (st : Storage) (hfit : Fits st.allocator.position (2 * cellSize * names.length)) :
    (reopen header spec names).runOn st =
      (.ok ⟨header, spec, layoutEntries names st.allocator.position⟩,
        { st with allocator := ⟨st.allocator.position + 2 * cellSize * names.length⟩ }) := by
  rw [reopen, Seeding.runOn_bind_ok (mapM_reopen_runOn names st hfit)]
  rfl

theorem reopen_ok {header : Header} {spec : ArchiveSpec} {names : List SourceName}
    {st st' : Storage} {r : PendingRow} (h : (reopen header spec names).runOn st = (.ok r, st')) :
    r = ⟨header, spec, layoutEntries names st.allocator.position⟩ ∧
      st'.allocator.position = st.allocator.position + 2 * cellSize * names.length := by
  rw [reopen] at h
  obtain ⟨es, hes, rfl⟩ := Seeding.runOn_bind_pure_eq_ok h
  obtain ⟨rfl, hpos⟩ := mapM_reopen_ok hes
  exact ⟨rfl, hpos⟩

theorem reopen_advances (header : Header) (spec : ArchiveSpec) (names : List SourceName) :
    Seeding.Advances (reopen header spec names) :=
  (Seeding.Advances.mapM fun _ _ =>
    PendingPoint.reopen_advances.bind fun _ => Seeding.Advances.pure _).bind
      fun _ => Seeding.Advances.pure _

theorem mapM_create_all_ok {header : Header} {names : List SourceName} :
    ∀ {specs : List ArchiveSpec} {st st' : Storage} {rows : List PendingRow},
      (specs.mapM fun a => create header a names).runOn st = (.ok rows, st') →
      rows = layoutRows header names specs st.allocator.position ∧
        st'.allocator.position =
          st.allocator.position + 2 * cellSize * names.length * specs.length ∧
        Fits st.allocator.position (2 * cellSize * names.length * specs.length) ∧
        st.store.Extends st'.store ∧ ∀ c ∈ rows.flatMap PendingRow.cells, st'.store.HasCell c
  | [], st, st', rows, h => by
    cases h
    exact ⟨rfl, rfl, .inl rfl, ByteStore.Extends.refl _, by simp⟩
  | a :: rest, st, st', rows, h => by
    obtain ⟨r, st₁, rows', hfirst, hrest, rfl⟩ := Seeding.mapM_cons_eq_ok h
    obtain ⟨rfl, hpos, hfit, hext, hcells⟩ := create_ok hfirst
    obtain ⟨rfl, hpos', hfit', hext', hcells'⟩ := mapM_create_all_ok hrest
    have hlen := mul_length_cons (2 * cellSize * names.length) a rest
    refine ⟨by rw [layoutRows, hpos], ?_, ?_, hext.trans hext', ?_⟩
    · rw [hpos', hpos, hlen]
      omega
    · rw [hpos] at hfit'
      rw [hlen]
      exact Fits.add hfit hfit'
    · intro c hc
      rw [List.flatMap_cons, List.mem_append] at hc
      rcases hc with hc | hc
      · exact (hcells c hc).extend hext'
      · exact hcells' c hc

theorem createAll_ok {d : Definition} {st st' : Storage} {rows : List PendingRow}
    (h : (createAll d).runOn st = (.ok rows, st')) :
    rows = layoutRows d.header d.sources d.archives st.allocator.position ∧
      st'.allocator.position =
        st.allocator.position + 2 * cellSize * d.sources.length * d.archives.length ∧
      Fits st.allocator.position (2 * cellSize * d.sources.length * d.archives.length) ∧
      st.store.Extends st'.store ∧ ∀ c ∈ rows.flatMap PendingRow.cells, st'.store.HasCell c :=
  mapM_create_all_ok h

theorem createAll_advances (d : Definition) : Seeding.Advances (createAll d) :=
  Seeding.Advances.mapM fun a _ => create_advances _ a _

theorem mapM_reopen_all_runOn (header : Header) (names : List SourceName) :
    ∀ (specs : List ArchiveSpec) (st : Storage),
      Fits st.allocator.position (2 * cellSize * names.length * specs.length) →
      (specs.mapM fun a => reopen header a names).runOn st =
        (.ok (layoutRows header names specs st.allocator.position),
          { st with allocator :=
              ⟨st.allocator.position + 2 * cellSize * names.length * specs.length⟩ })
  | [], st, _ => rfl
  | a :: rest, st, hfit => by
    have hlen := mul_length_cons (2 * cellSize * names.length) a rest
    rw [hlen] at hfit
    rw [List.mapM_cons, Seeding.runOn_bind_ok (reopen_runOn header a names st hfit.left),
      Seeding.runOn_bind_ok (mapM_reopen_all_runOn header names rest
        { st with allocator := ⟨st.allocator.position + 2 * cellSize * names.length⟩ } hfit.right)]
    simp only [layoutRows, List.length_cons, Nat.mul_succ]
    congr 3
    omega

theorem mapM_reopen_all_ok {header : Header} {names : List SourceName} :
    ∀ {specs : List ArchiveSpec} {st st' : Storage} {rows : List PendingRow},
      (specs.mapM fun a => reopen header a names).runOn st = (.ok rows, st') →
      rows = layoutRows header names specs st.allocator.position ∧
        st'.allocator.position =
          st.allocator.position + 2 * cellSize * names.length * specs.length
  | [], st, st', rows, h => by
    cases h
    exact ⟨rfl, rfl⟩
  | a :: rest, st, st', rows, h => by
    obtain ⟨r, st₁, rows', hfirst, hrest, rfl⟩ := Seeding.mapM_cons_eq_ok h
    obtain ⟨rfl, hpos⟩ := reopen_ok hfirst
    obtain ⟨rfl, hpos'⟩ := mapM_reopen_all_ok hrest
    refine ⟨by rw [layoutRows, hpos], ?_⟩
    rw [hpos', hpos, List.length_cons, Nat.mul_succ]
    omega

theorem reopenAll_runOn (d : Definition) (st : Storage)
    (hfit : Fits st.allocator.position (2 * cellSize * d.sources.length * d.archives.length)) :
    (reopenAll d).runOn st =
      (.ok (layoutRows d.header d.sources d.archives st.allocator.position),
        { st with allocator :=
            ⟨st.allocator.position + 2 * cellSize * d.sources.length * d.archives.length⟩ }) :=
  mapM_reopen_all_runOn d.header d.sources d.archives st hfit

theorem reopenAll_ok {d : Definition} {st st' : Storage} {rows : List PendingRow}
    (h : (reopenAll d).runOn st = (.ok rows, st')) :
    rows = layoutRows d.header d.sources d.archives st.allocator.position ∧
      st'.allocator.position =
        st.allocator.position + 2 * cellSize * d.sources.length * d.archives.length :=
  mapM_reopen_all_ok h

theorem reopenAll_advances (d : Definition) : Seeding.Advances (reopenAll d) :=
  Seeding.Advances.mapM fun a _ => reopen_advances _ a _

end PendingRow

end RoundRobin
