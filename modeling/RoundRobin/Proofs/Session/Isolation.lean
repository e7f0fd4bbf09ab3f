import RoundRobin.Proofs.Session.Allocation
import RoundRobin.Proofs.Pending.Restart
import RoundRobin.Proofs.Store.Readback

/-!
# Setting one state leaves the others alone

A set that succeeds writes the eight bytes of one cell and nothing else of
the session: the points, rows and allocator stay, every byte the store held
outside the cell keeps its value, and a store that grows is filled with
zeros up to the cell (`act_set_ok`). In a reachable session the cells of two
different states are disjoint, so every other state whose cells lay within
the store reads as before (`set_leaves_other_states`).

A state whose cells lie past the end of the store is not left alone: a state
that was only bound to fresh cells fails to read, and once a later cell is
set it reads the zeros the store grew by (`set_fills_unwritten_state`).
-/

namespace RoundRobin

-- ---------------------------------------------------------------------------
-- One cell written
-- ---------------------------------------------------------------------------

def PointAction.cell (p : PendingPoint) : PointAction → Option Nat
  | .setValue _ => some p.valueCell
  | .setCount _ => some p.countCell
  | _ => none

theorem PointAction.cell_mem {p : PendingPoint} {a : PointAction} {c : Nat}
    (hc : a.cell p = some c) : c ∈ p.cells := by
  cases a <;> cases hc <;> simp [PendingPoint.cells]

theorem PendingRow.mem_of_point {r : PendingRow} {name : String} {p : PendingPoint}
    (h : r.point name = .ok p) : p ∈ r.entries.map (·.2) := by
  unfold PendingRow.point at h
  split at h
  next n p' hfind =>
    cases h
    exact List.mem_map.mpr ⟨_, List.mem_of_find?_eq_some hfind, rfl⟩
  next => cases h

namespace Session

def putCell (s : Session) (c : Nat) (data : List UInt8) : Session :=
  { s with storage := { s.storage with store :=
      { s.storage.store with bytes := ByteStore.put s.storage.store.bytes c data } } }

theorem storing_ok {x : StoreM α} {s s' : Session} {a : α}
    (h : (storing x).runOn s = (.ok a, s')) :
    x.runOn s.storage.store = (.ok a, s'.storage.store) ∧
      s' = { s with storage := { s.storage with store := s'.storage.store } } := by
  obtain ⟨hx, hs'⟩ := seeding_ok h
  obtain ⟨hstore, hst⟩ := Seeding.onStore_ok hx
  refine ⟨hstore, ?_⟩
  rw [hs', hst]

theorem storing_done_ok {w : StoreM Unit} {s s' : Session} {ans : Answer}
    (h : (storing w >>= fun _ => pure Answer.done).runOn s = (.ok ans, s')) :
    w.runOn s.storage.store = (.ok (), s'.storage.store) ∧
      s' = { s with storage := { s.storage with store := s'.storage.store } } := by
  obtain ⟨_, s₁, hstore, h⟩ := StepM.runOn_bind_eq_ok h
  cases h
  exact storing_ok hstore

/-- A set that succeeds places eight bytes at the cell it names, and changes
nothing else of the session. -/
theorem act_set_ok {p : PendingPoint} {a : PointAction} {c : Nat} (hc : a.cell p = some c)
    {s s' : Session} {ans : Answer} (h : (act p a).runOn s = (.ok ans, s')) :
    ∃ data : List UInt8, data.length = cellSize ∧ s' = s.putCell c data := by
  cases a with
  | setValue x =>
    cases hc
    obtain ⟨hwrite, hs'⟩ := storing_done_ok h
    refine ⟨bigEndian cellSize x.bits.toNat, length_bigEndian _ _, ?_⟩
    rw [hs', StoreM.writeDouble_runOn_ok hwrite]
    rfl
  | setCount n =>
    cases hc
    obtain ⟨hwrite, hs'⟩ := storing_done_ok h
    obtain ⟨v, s₁, hfit, hwrite⟩ := StoreM.runOn_bind_eq_ok hwrite
    rw [StoreM.runOn_ofExcept, PendingPoint.storedCount] at hfit
    split at hfit
    · cases hfit
      refine ⟨bigEndian cellSize ((n : Int) % Int.pow 2 64).toNat, length_bigEndian _ _, ?_⟩
      rw [hs', StoreM.writeLong_runOn_ok hwrite]
      rfl
    · cases hfit
  | getValue | getCount | snapshot | dump | exportAs _ => cases hc

-- ---------------------------------------------------------------------------
-- The bytes after a set
-- ---------------------------------------------------------------------------

section
variable {s : Session} {c : Nat} {data : List UInt8}

theorem putCell_size (hlen : data.length = cellSize) :
    (s.putCell c data).storage.store.size = max s.storage.store.size (c + cellSize) := by
  simp only [putCell, ByteStore.size, ByteStore.length_put, hlen]

theorem putCell_byte_of_lt {j : Nat} (hj : j < c ∨ c + cellSize ≤ j) (hlen : data.length = cellSize)
    (hlt : j < s.storage.store.size) :
    (s.putCell c data).storage.store.bytes[j]? = s.storage.store.bytes[j]? := by
  simp only [putCell]
  rw [ByteStore.getElem?_put, if_neg (by omega),
    if_pos (show j < s.storage.store.bytes.length from hlt)]

theorem putCell_byte_of_gap {j : Nat} (hge : s.storage.store.size ≤ j) (hlt : j < c) :
    (s.putCell c data).storage.store.bytes[j]? = some 0 := by
  simp only [putCell]
  rw [ByteStore.getElem?_put, if_neg (by omega), if_neg (by simp only [ByteStore.size] at hge; omega),
    if_pos hlt]

end

-- ---------------------------------------------------------------------------
-- Steps on one state
-- ---------------------------------------------------------------------------

/-- The state a step acts on and its action, for the steps on one state: a
point by index, or the point of a row by index and name. -/
def actsOn (s : Session) : Step → Option (PendingPoint × PointAction)
  | .onPoint i a => s.points[i]?.map (·, a)
  | .onRow i name a => (s.rows[i]?.bind fun r => (r.point name).toOption).map (·, a)
  | _ => none

theorem pointAt_runOn {s : Session} {i : Nat} {p : PendingPoint} (h : s.points[i]? = some p) :
    (pointAt i).runOn s = (.ok p, s) := by
  unfold pointAt
  rw [StepM.runOn_bind_ok (run_get_state s)]
  simp only [h]
  rfl

theorem rowAt_runOn {s : Session} {i : Nat} {r : PendingRow} (h : s.rows[i]? = some r) :
    (rowAt i).runOn s = (.ok r, s) := by
  unfold rowAt
  rw [StepM.runOn_bind_ok (run_get_state s)]
  simp only [h]
  rfl

theorem apply_of_actsOn {s : Session} {step : Step} {p : PendingPoint} {a : PointAction}
    (h : s.actsOn step = some (p, a)) :
    (apply step).runOn s = (act p a).runOn s ∧ p ∈ s.states := by
  cases step with
  | onPoint i a' =>
    obtain ⟨p', hp', hpa⟩ := Option.map_eq_some_iff.mp h
    cases hpa
    exact ⟨StepM.runOn_bind_ok (pointAt_runOn hp'),
      List.mem_append_left _ (List.mem_of_getElem? hp')⟩
  | onRow i name a' =>
    obtain ⟨p', hp', hpa⟩ := Option.map_eq_some_iff.mp h
    cases hpa
    obtain ⟨r, hr, hpoint⟩ := Option.bind_eq_some_iff.mp hp'
    have hpoint : r.point name = .ok p := by
      cases hq : r.point name with
      | ok q => rw [hq] at hpoint; cases hpoint; rfl
      | error e => rw [hq] at hpoint; cases hpoint
    refine ⟨?_, List.mem_append_right _ ?_⟩
    · rw [apply, StepM.runOn_bind_ok (rowAt_runOn hr), hpoint]
      rfl
    · exact List.mem_flatMap.mpr ⟨r, List.mem_of_getElem? hr, PendingRow.mem_of_point hpoint⟩
  | _ => cases h

-- ---------------------------------------------------------------------------
-- A set in a reachable session
-- ---------------------------------------------------------------------------

/-- In a session reached by steps that take states only from the allocator,
the cells of all states are pairwise disjoint slots below the allocator
position. A set on one state that succeeds places eight bytes at its cell
and changes nothing else of the session: every byte the store held outside
the cell keeps its value, a store that grows ends with the cell and is
filled with zeros up to it, and every other state whose cells lay within the
store reads as before. -/
theorem set_leaves_other_states {s : Session} (hs : Reachable s) {step : Step}
    {p : PendingPoint} {a : PointAction} {c : Nat} (hon : s.actsOn step = some (p, a))
    (hc : a.cell p = some c) {ans : Answer} {s' : Session}
    (hrun : (apply step).runOn s = (.ok ans, s')) :
    s.Isolated ∧ p ∈ s.states ∧ c ∈ p.cells ∧
    (∃ data : List UInt8, data.length = cellSize ∧ s' = s.putCell c data) ∧
    s'.storage.store.size = max s.storage.store.size (c + cellSize) ∧
    (∀ j, (j < c ∨ c + cellSize ≤ j) → j < s.storage.store.size →
      s'.storage.store.bytes[j]? = s.storage.store.bytes[j]?) ∧
    (∀ j, s.storage.store.size ≤ j → j < c → s'.storage.store.bytes[j]? = some 0) ∧
    ∀ q ∈ s.states, q ≠ p → (∀ d ∈ q.cells, d + cellSize ≤ s.storage.store.size) →
      (q.snapshot.runOn s'.storage.store).1 = (q.snapshot.runOn s.storage.store).1 := by
  have hiso := hs.isolated
  obtain ⟨happly, hp⟩ := apply_of_actsOn hon
  rw [happly] at hrun
  obtain ⟨data, hlen, rfl⟩ := act_set_ok hc hrun
  have hcp := PointAction.cell_mem hc
  refine ⟨hiso, hp, hcp, ⟨data, hlen, rfl⟩, putCell_size hlen,
    fun j hj hlt => putCell_byte_of_lt hj hlen hlt, fun j hge hlt => putCell_byte_of_gap hge hlt,
    fun q hq hne hin => ?_⟩
  -- the other state's cells are apart from the written one and within the old store
  refine q.snapshot_readsOnly.runOn_fst fun d hd => ?_
  exact ByteStore.read_put_of_apart hlen (hin d hd)
    (hiso.apart_of_ne hp hq (Ne.symm hne) c hcp d hd)

/-- Two states made in an empty memory store, then the accumulated value of
the second set to 1.5. -/
theorem set_leaves_other_states_after_create :
    let step : Step := .onPoint 1 (.setValue ⟨0x3FF8000000000000⟩)
    let s := ((apply (.createPoint 60 300 1700000000)).runOn
      ((apply (.createPoint 60 300 1700000000)).runOn (start .memory [])).2).2
    let s' := ((apply step).runOn s).2
    let p : PendingPoint := ⟨16, 24⟩
    let a : PointAction := .setValue ⟨0x3FF8000000000000⟩
    (Reachable s ∧ s.actsOn step = some (p, a) ∧ a.cell p = some 16 ∧
      (apply step).runOn s = (.ok .done, s')) ∧
    (s.Isolated ∧ p ∈ s.states ∧ 16 ∈ p.cells ∧
      (∃ data : List UInt8, data.length = cellSize ∧ s' = s.putCell 16 data) ∧
      s'.storage.store.size = max s.storage.store.size (16 + cellSize) ∧
      (∀ j, (j < 16 ∨ 16 + cellSize ≤ j) → j < s.storage.store.size →
        s'.storage.store.bytes[j]? = s.storage.store.bytes[j]?) ∧
      (∀ j, s.storage.store.size ≤ j → j < 16 → s'.storage.store.bytes[j]? = some 0) ∧
      ∀ q ∈ s.states, q ≠ p → (∀ d ∈ q.cells, d + cellSize ≤ s.storage.store.size) →
        (q.snapshot.runOn s'.storage.store).1 = (q.snapshot.runOn s.storage.store).1) := by
  intro step s s' p a
  have hs : Reachable s := .next (.next (.fresh .memory []) rfl) rfl
  have hon : s.actsOn step = some (p, a) := by decide
  have hrun : (apply step).runOn s = (.ok .done, s') := by decide
  exact ⟨⟨hs, hon, rfl, hrun⟩, set_leaves_other_states hs hon rfl hrun⟩

/-- Two states bound to fresh cells of an empty memory store: the snapshot of
the first fails, setting the second grows the store with zeros, and the
first then reads zero. -/
theorem set_fills_unwritten_state :
    answers (start .memory []) [.reopenPoint, .reopenPoint, .onPoint 0 .snapshot,
        .onPoint 1 (.setValue ⟨0x3FF8000000000000⟩), .onPoint 0 .snapshot] =
      [.ok (.point 0 16), .ok (.point 1 32), .error (.state (.store (.outOfBounds 0 8 0))),
        .ok .done, .ok (.snapshot ⟨⟨0⟩, 0⟩)] := by
  decide

end Session

end RoundRobin
