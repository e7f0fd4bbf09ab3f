import RoundRobin.Proofs.Pending.Layout
import RoundRobin.Session.Apply

/-!
# States come from one allocator

A session's states are its points and the points of its rows. A step that
takes states only from the session's allocator, and neither seeds nor binds
one at cells the caller names nor starts a new allocator, hands out the next
cells after the allocator position and moves the position past them
(`apply_handsOut`). A failed step may have moved the position too, but it
adds no state.

So in every session reached by such steps the cells of all states are
pairwise disjoint 8-byte slots below the allocator position
(`Reachable.isolated`).
-/

namespace RoundRobin

/-- Whether a step takes states only from the session's allocator: it neither
seeds nor binds a state at cells the caller names, nor starts a new
allocator. -/
def Step.fromAllocator : Step → Bool
  | .seedPoint .. | .bindPoint .. | .resetAllocator _ => false
  | _ => true

namespace Session

-- ---------------------------------------------------------------------------
-- Running steps
-- ---------------------------------------------------------------------------

def StepM.runOn (x : StepM α) (s : Session) : Except SessionError α × Session :=
  (ExceptT.run x).run s

namespace StepM

theorem runOn_bind_ok {x : StepM α} {f : α → StepM β} {s s' : Session} {a : α}
    (h : x.runOn s = (.ok a, s')) : (x >>= f).runOn s = (f a).runOn s' :=
  run_bind_ok h

theorem runOn_bind_error {x : StepM α} {f : α → StepM β} {s s' : Session} {e : SessionError}
    (h : x.runOn s = (.error e, s')) : (x >>= f).runOn s = (.error e, s') :=
  run_bind_error h

theorem runOn_bind_eq_ok {x : StepM α} {f : α → StepM β} {s s'' : Session} {b : β}
    (h : (x >>= f).runOn s = (.ok b, s'')) :
    ∃ a s', x.runOn s = (.ok a, s') ∧ (f a).runOn s' = (.ok b, s'') := by
  rcases hx : x.runOn s with ⟨r, s'⟩
  cases r with
  | error e => rw [runOn_bind_error hx] at h; cases h
  | ok a => exact ⟨a, s', rfl, (runOn_bind_ok hx).symm.trans h⟩

end StepM

theorem seeding_runOn_ok {x : Seeding α} {s : Session} {a : α} {st : Storage}
    (h : x.runOn s.storage = (.ok a, st)) :
    (seeding x).runOn s = (.ok a, { s with storage := st }) := by
  simp only [seeding, StepM.runOn, run_bind_ok (run_get_state s)]
  rw [show Seeding.runOn x s.storage = _ from h]
  rfl

theorem seeding_runOn_error {x : Seeding α} {s : Session} {e : StateError} {st : Storage}
    (h : x.runOn s.storage = (.error e, st)) :
    (seeding x).runOn s = (.error (.state e), { s with storage := st }) := by
  simp only [seeding, StepM.runOn, run_bind_ok (run_get_state s)]
  rw [show Seeding.runOn x s.storage = _ from h]
  rfl

theorem seeding_ok {x : Seeding α} {s s' : Session} {a : α}
    (h : (seeding x).runOn s = (.ok a, s')) :
    x.runOn s.storage = (.ok a, s'.storage) ∧ s' = { s with storage := s'.storage } := by
  rcases hx : x.runOn s.storage with ⟨r, st⟩
  cases r with
  | error e => rw [seeding_runOn_error hx] at h; cases h
  | ok b =>
    rw [seeding_runOn_ok hx] at h
    cases h
    exact ⟨rfl, rfl⟩

theorem keepPoint_runOn (p : PendingPoint) (s : Session) :
    (keepPoint p).runOn s =
      (.ok (.point s.points.length s.storage.allocator.position),
        { s with points := s.points ++ [p] }) := rfl

theorem keepRows_runOn (rs : List PendingRow) (s : Session) :
    (keepRows rs).runOn s =
      (.ok ((List.range rs.length).map (s.rows.length + ·)), { s with rows := s.rows ++ rs }) := rfl

-- ---------------------------------------------------------------------------
-- The cells of a session
-- ---------------------------------------------------------------------------

def states (s : Session) : List PendingPoint :=
  s.points ++ s.rows.flatMap fun r => r.entries.map (·.2)

def cells (s : Session) : List Nat := s.states.flatMap PendingPoint.cells

theorem cells_eq (s : Session) :
    s.cells = s.points.flatMap PendingPoint.cells ++ s.rows.flatMap PendingRow.cells := by
  simp only [cells, states, List.flatMap_append, List.flatMap_assoc, List.flatMap_map]
  rfl

theorem cells_keepPoint (s : Session) (p : PendingPoint) :
    ({ s with points := s.points ++ [p] } : Session).cells.Perm (s.cells ++ p.cells) := by
  simp only [cells_eq, List.flatMap_append, List.flatMap_singleton, List.append_assoc]
  exact List.Perm.append_left _ List.perm_append_comm

theorem cells_keepRows (s : Session) (rs : List PendingRow) :
    ({ s with rows := s.rows ++ rs } : Session).cells = s.cells ++ rs.flatMap PendingRow.cells := by
  simp only [cells_eq, List.flatMap_append, List.append_assoc]

/-- The cells of all states are pairwise disjoint slots below the allocator
position. -/
structure Isolated (s : Session) : Prop where
  apart : s.cells.Pairwise Apart
  below : ∀ c ∈ s.cells, c + cellSize ≤ s.storage.allocator.position

theorem Isolated.apart_of_ne {s : Session} (h : Isolated s) {p q : PendingPoint}
    (hp : p ∈ s.states) (hq : q ∈ s.states) (hne : p ≠ q) :
    ∀ c ∈ p.cells, ∀ d ∈ q.cells, Apart c d := by
  obtain ⟨-, hpw⟩ := List.pairwise_flatMap.mp h.apart
  -- the relation holds vacuously of a state and itself, and either way round
  have hto : s.states.Pairwise fun p q => p ≠ q → ∀ c ∈ p.cells, ∀ d ∈ q.cells, Apart c d :=
    hpw.imp fun {p q} h (_ : p ≠ q) => h
  have hfrom : s.states.Pairwise fun q p => p ≠ q → ∀ c ∈ p.cells, ∀ d ∈ q.cells, Apart c d :=
    hpw.imp fun {q p} h (_ : p ≠ q) c hc d hd => (h d hd c hc).symm
  exact hto.forall_of_forall_of_flip (fun _ _ hself => absurd rfl hself) hfrom hp hq hne

-- ---------------------------------------------------------------------------
-- Handing out cells
-- ---------------------------------------------------------------------------

/-- From `s` to `s'` every state stays, and the new ones take fresh cells:
disjoint slots from the old allocator position up to the new one. -/
def HandsOut (s s' : Session) : Prop :=
  s.storage.allocator.position ≤ s'.storage.allocator.position ∧
    ∃ new : List Nat, s'.cells.Perm (s.cells ++ new) ∧ new.Pairwise Apart ∧
      ∀ c ∈ new, s.storage.allocator.position ≤ c ∧
        c + cellSize ≤ s'.storage.allocator.position

theorem HandsOut.refl (s : Session) : HandsOut s s :=
  ⟨Nat.le_refl _, [], by simp, List.Pairwise.nil, by simp⟩

theorem HandsOut.trans {s₁ s₂ s₃ : Session} (h₁ : HandsOut s₁ s₂) (h₂ : HandsOut s₂ s₃) :
    HandsOut s₁ s₃ := by
  obtain ⟨hle₁, new₁, hperm₁, hpw₁, hin₁⟩ := h₁
  obtain ⟨hle₂, new₂, hperm₂, hpw₂, hin₂⟩ := h₂
  refine ⟨Nat.le_trans hle₁ hle₂, new₁ ++ new₂, ?_, ?_, ?_⟩
  · rw [← List.append_assoc]
    exact hperm₂.trans (hperm₁.append_right new₂)
  · refine List.pairwise_append.mpr ⟨hpw₁, hpw₂, fun c hc d hd => Or.inl ?_⟩
    exact Nat.le_trans (hin₁ c hc).2 (hin₂ d hd).1
  · intro c hc
    rcases List.mem_append.mp hc with hc | hc
    · exact ⟨(hin₁ c hc).1, Nat.le_trans (hin₁ c hc).2 hle₂⟩
    · exact ⟨Nat.le_trans hle₁ (hin₂ c hc).1, (hin₂ c hc).2⟩

theorem handsOut_of_slots {s s' : Session} {n : Nat}
    (hcells : s'.cells.Perm (s.cells ++ slots s.storage.allocator.position n))
    (hpos : s'.storage.allocator.position = s.storage.allocator.position + cellSize * n) :
    HandsOut s s' := by
  refine ⟨by omega, _, hcells, pairwise_slots _ n, fun c hc => ?_⟩
  have := mem_slots hc
  omega

theorem handsOut_storage {s : Session} {st : Storage}
    (hpos : s.storage.allocator.position ≤ st.allocator.position) :
    HandsOut s { s with storage := st } :=
  ⟨hpos, [], by simp [cells, states], List.Pairwise.nil, by simp⟩

theorem Isolated.handsOut {s s' : Session} (h : Isolated s) (ho : HandsOut s s') : Isolated s' := by
  obtain ⟨hle, new, hperm, hpw, hin⟩ := ho
  refine ⟨(hperm.pairwise_iff Apart.symm).mpr ?_, fun c hc => ?_⟩
  · refine List.pairwise_append.mpr ⟨h.apart, hpw, fun c hc d hd => Or.inl ?_⟩
    exact Nat.le_trans (h.below c hc) (hin d hd).1
  · rcases List.mem_append.mp (hperm.mem_iff.mp hc) with hc | hc
    · exact Nat.le_trans (h.below c hc) hle
    · exact (hin c hc).2

-- ---------------------------------------------------------------------------
-- Programs that hand out cells only from the allocator
-- ---------------------------------------------------------------------------

/-- A program after which the session has handed out cells only from its
allocator, whether it succeeds or not. -/
def Allocates (x : StepM α) : Prop := ∀ s, HandsOut s (x.runOn s).2

theorem Allocates.pure (a : α) : Allocates (pure a : StepM α) := fun s => HandsOut.refl s

theorem Allocates.throw (e : SessionError) : Allocates (throw e : StepM α) :=
  fun s => HandsOut.refl s

theorem Allocates.get : Allocates (get : StepM Session) := fun s => HandsOut.refl s

theorem Allocates.bind {x : StepM α} {f : α → StepM β} (hx : Allocates x)
    (hf : ∀ a, Allocates (f a)) : Allocates (x >>= f) := by
  intro s
  have h := hx s
  rcases hr : x.runOn s with ⟨r, s'⟩
  rw [hr] at h
  cases r with
  | error e => rw [StepM.runOn_bind_error hr]; exact h
  | ok a => rw [StepM.runOn_bind_ok hr]; exact h.trans (hf a s')

theorem Allocates.mapM {l : List α} {f : α → StepM β} (hf : ∀ a ∈ l, Allocates (f a)) :
    Allocates (l.mapM f) := by
  induction l with
  | nil => exact Allocates.pure []
  | cons a rest ih =>
    rw [List.mapM_cons]
    exact (hf a List.mem_cons_self).bind fun b =>
      (ih fun a' ha' => hf a' (List.mem_cons_of_mem a ha')).bind fun bs => Allocates.pure _

/-- Building archive state, then going on with its result: a failed build
adds no state, and a build that succeeds hands out whatever the rest does
from the storage it left. -/
theorem Allocates.seeding_bind {x : Seeding α} {f : α → StepM β} (hadv : Seeding.Advances x)
    (hf : ∀ s b st, x.runOn s.storage = (.ok b, st) →
      HandsOut s ((f b).runOn { s with storage := st }).2) :
    Allocates (Session.seeding x >>= f) := by
  intro s
  have hpos := hadv s.storage
  rcases hr : x.runOn s.storage with ⟨r, st⟩
  rw [hr] at hpos
  cases r with
  | error e =>
    rw [StepM.runOn_bind_error (seeding_runOn_error hr)]
    exact handsOut_storage hpos
  | ok b =>
    rw [StepM.runOn_bind_ok (seeding_runOn_ok hr)]
    exact hf s b st hr

theorem Allocates.seeding {x : Seeding α} (hx : Seeding.Advances x) :
    Allocates (Session.seeding x) := by
  have h := Allocates.seeding_bind (f := Pure.pure) hx fun s _ st hr => by
    have hpos := hx s.storage
    rw [hr] at hpos
    exact handsOut_storage hpos
  rwa [bind_pure] at h

theorem Allocates.storing (x : StoreM α) : Allocates (Session.storing x) :=
  Allocates.seeding (Seeding.onStore_advances x)

theorem Allocates.seeding_keepPoint {x : Seeding PendingPoint} (hadv : Seeding.Advances x)
    (hx : ∀ st p st', x.runOn st = (.ok p, st') →
      p = .slotAt st.allocator.position ∧
        st'.allocator.position = st.allocator.position + 2 * cellSize) :
    Allocates (Session.seeding x >>= keepPoint) := by
  refine Allocates.seeding_bind hadv fun s p st hr => ?_
  obtain ⟨rfl, hnext⟩ := hx _ _ _ hr
  rw [keepPoint_runOn]
  exact handsOut_of_slots (n := 2) (cells_keepPoint _ _) (hnext.trans (by rw [Nat.mul_comm]))

theorem Allocates.seeding_keepRows {x : Seeding β} {f : β → List PendingRow}
    (hadv : Seeding.Advances x)
    (hx : ∀ st b st', x.runOn st = (.ok b, st') → ∃ n,
      (f b).flatMap PendingRow.cells = slots st.allocator.position n ∧
        st'.allocator.position = st.allocator.position + cellSize * n)
    {k : List Nat → StepM γ} (hk : ∀ is, Allocates (k is)) :
    Allocates (Session.seeding x >>= fun b => keepRows (f b) >>= k) := by
  refine Allocates.seeding_bind hadv fun s b st hr => ?_
  obtain ⟨n, hcells, hnext⟩ := hx _ _ _ hr
  rw [StepM.runOn_bind_ok (keepRows_runOn _ _)]
  have hcells' : ({ s with storage := st, rows := s.rows ++ f b } : Session).cells =
      s.cells ++ slots s.storage.allocator.position n := by
    rw [← hcells]
    exact cells_keepRows { s with storage := st } (f b)
  exact (handsOut_of_slots (List.Perm.of_eq hcells') hnext).trans (hk _ _)

-- ---------------------------------------------------------------------------
-- Every step but seeding, binding and a new allocator
-- ---------------------------------------------------------------------------

theorem currentPosition_allocates : Allocates currentPosition :=
  Allocates.get.bind fun _ => Allocates.pure _

theorem pointAt_allocates (i : Nat) : Allocates (pointAt i) :=
  Allocates.get.bind fun _ => by
    split
    · exact Allocates.pure _
    · exact Allocates.throw _

theorem rowAt_allocates (i : Nat) : Allocates (rowAt i) :=
  Allocates.get.bind fun _ => by
    split
    · exact Allocates.pure _
    · exact Allocates.throw _

theorem ofConfig_allocates (r : Except ConfigError α) : Allocates (ofConfig r) := by
  cases r with
  | error e => exact Allocates.throw _
  | ok a => exact Allocates.pure a

theorem ofState_allocates (r : Except StateError α) : Allocates (ofState r) := by
  cases r with
  | error e => exact Allocates.throw _
  | ok a => exact Allocates.pure a

theorem ofName_allocates (text : String) : Allocates (ofName text) := by
  unfold ofName
  split
  · exact Allocates.pure _
  · exact Allocates.throw _

theorem act_allocates (p : PendingPoint) (action : PointAction) : Allocates (act p action) := by
  cases action with
  | exportAs name =>
    exact (ofName_allocates name).bind fun _ =>
      (Allocates.storing _).bind fun _ => Allocates.pure _
  | getValue | getCount | setValue _ | setCount _ | snapshot | dump =>
    exact (Allocates.storing _).bind fun _ => Allocates.pure _

theorem rowParts_allocates (step lastUpdate : Int) (consolidation : String) (xff : Binary64)
    (steps rows : Int) (names : List String) :
    Allocates (rowParts step lastUpdate consolidation xff steps rows names) :=
  (ofConfig_allocates _).bind fun _ =>
    (Allocates.mapM fun n _ => ofName_allocates n).bind fun _ => Allocates.pure _

def MakesRows (x : Seeding α) (f : α → List PendingRow) : Prop :=
  ∀ st b st', x.runOn st = (.ok b, st') → ∃ n,
    (f b).flatMap PendingRow.cells = slots st.allocator.position n ∧
      st'.allocator.position = st.allocator.position + cellSize * n

theorem makesRows_create (header : Header) (spec : ArchiveSpec) (names : List SourceName) :
    MakesRows (PendingRow.create header spec names) fun r => [r] := by
  intro st r st' h
  obtain ⟨rfl, hpos, -⟩ := PendingRow.create_ok h
  refine ⟨2 * names.length, ?_, ?_⟩
  · simp only [List.flatMap_singleton, PendingRow.cells, cells_layoutEntries]
  · rw [hpos, Nat.mul_comm 2 cellSize, Nat.mul_assoc]

theorem makesRows_reopen (header : Header) (spec : ArchiveSpec) (names : List SourceName) :
    MakesRows (PendingRow.reopen header spec names) fun r => [r] := by
  intro st r st' h
  obtain ⟨rfl, hpos⟩ := PendingRow.reopen_ok h
  refine ⟨2 * names.length, ?_, ?_⟩
  · simp only [List.flatMap_singleton, PendingRow.cells, cells_layoutEntries]
  · rw [hpos, Nat.mul_comm 2 cellSize, Nat.mul_assoc]

theorem makesRows_createAll (d : Definition) : MakesRows (PendingRow.createAll d) id := by
  intro st rows st' h
  obtain ⟨rfl, hpos, -⟩ := PendingRow.createAll_ok h
  refine ⟨2 * d.sources.length * d.archives.length, cells_layoutRows _ _ _ _, ?_⟩
  rw [hpos, Nat.mul_comm 2 cellSize, Nat.mul_assoc, Nat.mul_assoc, Nat.mul_assoc]

theorem makesRows_reopenAll (d : Definition) : MakesRows (PendingRow.reopenAll d) id := by
  intro st rows st' h
  obtain ⟨rfl, hpos⟩ := PendingRow.reopenAll_ok h
  refine ⟨2 * d.sources.length * d.archives.length, cells_layoutRows _ _ _ _, ?_⟩
  rw [hpos, Nat.mul_comm 2 cellSize, Nat.mul_assoc, Nat.mul_assoc, Nat.mul_assoc]

/-- A step from the allocator hands out cells only from it, or restarts the
session with no states. -/
theorem apply_handsOut {step : Step} (hstep : step.fromAllocator = true) (s : Session) :
    HandsOut s ((apply step).runOn s).2 ∨ ((apply step).runOn s).2.cells = [] := by
  cases step with
  | reopen replacement => exact .inr rfl
  | seedPoint | bindPoint | resetAllocator => cases hstep
  | createPoint step arcStep lastUpdate =>
    refine .inl (Allocates.seeding_keepPoint (PendingPoint.create_advances _ _ _)
      (fun _ _ _ h => ?_) s)
    exact ⟨(PendingPoint.create_ok h).1, (PendingPoint.create_ok h).2.1⟩
  | reopenPoint =>
    exact .inl (Allocates.seeding_keepPoint PendingPoint.reopen_advances
      (fun _ _ _ h => PendingPoint.reopen_ok h) s)
  | onPoint i action => exact .inl ((pointAt_allocates i).bind (act_allocates · action) s)
  | createRow step lastUpdate consolidation xff steps rows names =>
    exact .inl ((rowParts_allocates _ _ _ _ _ _ _).bind (fun ⟨h, a, ns⟩ =>
      Allocates.seeding_keepRows (PendingRow.create_advances h a ns) (makesRows_create h a ns)
        fun _ => currentPosition_allocates.bind fun _ => Allocates.pure _) s)
  | reopenRow step lastUpdate consolidation xff steps rows names =>
    exact .inl ((rowParts_allocates _ _ _ _ _ _ _).bind (fun ⟨h, a, ns⟩ =>
      Allocates.seeding_keepRows (PendingRow.reopen_advances h a ns) (makesRows_reopen h a ns)
        fun _ => currentPosition_allocates.bind fun _ => Allocates.pure _) s)
  | createRows text =>
    exact .inl ((ofConfig_allocates _).bind (fun d =>
      Allocates.seeding_keepRows (PendingRow.createAll_advances d) (makesRows_createAll d)
        fun _ => currentPosition_allocates.bind fun _ => Allocates.pure _) s)
  | reopenRows text =>
    exact .inl ((ofConfig_allocates _).bind (fun d =>
      Allocates.seeding_keepRows (PendingRow.reopenAll_advances d) (makesRows_reopenAll d)
        fun _ => currentPosition_allocates.bind fun _ => Allocates.pure _) s)
  | onRow i name action =>
    exact .inl ((rowAt_allocates i).bind (fun r =>
      (ofState_allocates _).bind (act_allocates · action)) s)
  | exportRow i | dumpRow i =>
    exact .inl ((rowAt_allocates i).bind (fun _ =>
      (Allocates.storing _).bind fun _ => Allocates.pure _) s)
  | describeRow i => exact .inl ((rowAt_allocates i).bind (fun _ => Allocates.pure _) s)
  | position => exact .inl ((currentPosition_allocates.bind fun _ => Allocates.pure _) s)
  | allocate size =>
    exact .inl (((Allocates.seeding (Seeding.allocate_advances size)).bind fun _ =>
      currentPosition_allocates.bind fun _ => Allocates.pure _) s)
  | size | bytes => exact .inl ((Allocates.get.bind fun _ => Allocates.pure _) s)
  | writeBytes _ _ | writeDouble _ _ | writeLong _ _ | readBytes _ _ | readDouble _ | readLong _ =>
    exact .inl (((Allocates.storing _).bind fun _ => Allocates.pure _) s)
  | sync => exact .inl (HandsOut.refl s)

-- ---------------------------------------------------------------------------
-- Every reachable session
-- ---------------------------------------------------------------------------

theorem isolated_of_cells_eq_nil {s : Session} (h : s.cells = []) : Isolated s := by
  refine ⟨?_, fun c hc => ?_⟩
  · rw [h]
    exact List.Pairwise.nil
  · rw [h] at hc
    nomatch hc

theorem isolated_start (backing : Backing) (initial : List UInt8) :
    Isolated (start backing initial) :=
  isolated_of_cells_eq_nil rfl

theorem Isolated.apply {s : Session} (h : Isolated s) {step : Step}
    (hstep : step.fromAllocator = true) : Isolated ((Session.apply step).runOn s).2 := by
  rcases apply_handsOut hstep s with ho | hnone
  · exact h.handsOut ho
  · exact isolated_of_cells_eq_nil hnone

/-- Sessions reached from a fresh one by steps that take states only from the
allocator. -/
inductive Reachable : Session → Prop
  | fresh (backing : Backing) (initial : List UInt8) : Reachable (start backing initial)
  | next {s : Session} {step : Step} : Reachable s → step.fromAllocator = true →
      Reachable ((apply step).runOn s).2

/-- In every reachable session the cells of all states are pairwise disjoint
slots below the allocator position. -/
theorem Reachable.isolated {s : Session} (h : Reachable s) : Isolated s := by
  induction h with
  | fresh backing initial => exact isolated_start backing initial
  | next _ hstep ih => exact ih.apply hstep

end Session

end RoundRobin
