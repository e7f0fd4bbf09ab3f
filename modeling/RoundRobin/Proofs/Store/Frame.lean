import RoundRobin.Store.Run

/-!
# What a store program touches

A write places its bytes at its offset and leaves every other byte the store
had, filling a gap before the offset with zeros (`getElem?_put`). A cell that
was written is readable from then on, in the same backing, since a store only
grows (`HasCell`, `Extends`).

Two kinds of store programs follow from this: those that only read
(`StoreM.ReadsOnly`), whose answer depends on nothing but the bytes of the
cells they read, and those that only let the store grow (`StoreM.Grows`).
-/

namespace RoundRobin

-- ---------------------------------------------------------------------------
-- Running programs over a state
-- ---------------------------------------------------------------------------

section
variable {ε σ α β : Type}

theorem run_bind_ok {x : ExceptT ε (StateM σ) α} {f : α → ExceptT ε (StateM σ) β} {s s' : σ}
    {a : α} (h : (ExceptT.run x).run s = (.ok a, s')) :
    (ExceptT.run (x >>= f)).run s = (ExceptT.run (f a)).run s' := by
  simp only [ExceptT.run_bind, StateT.run_bind, h]
  rfl

theorem run_bind_error {x : ExceptT ε (StateM σ) α} {f : α → ExceptT ε (StateM σ) β} {s s' : σ}
    {e : ε} (h : (ExceptT.run x).run s = (.error e, s')) :
    (ExceptT.run (x >>= f)).run s = (.error e, s') := by
  simp only [ExceptT.run_bind, StateT.run_bind, h]
  rfl

theorem run_get_state (s : σ) :
    (ExceptT.run (get : ExceptT ε (StateM σ) σ)).run s = (.ok s, s) := rfl

end

theorem length_bigEndian (w n : Nat) : (bigEndian w n).length = w := by
  simp [bigEndian]

namespace ByteStore

-- ---------------------------------------------------------------------------
-- Placing bytes
-- ---------------------------------------------------------------------------

theorem length_put (bytes : List UInt8) (o : Nat) (data : List UInt8) :
    (put bytes o data).length = max bytes.length (o + data.length) := by
  simp only [put, List.length_append, List.length_take, List.length_drop, List.length_replicate]
  omega

/-- The bytes after a write: the data in its slot, the old bytes elsewhere,
zeros in a gap between the old end and the slot. -/
theorem getElem?_put (bytes : List UInt8) (o : Nat) (data : List UInt8) (i : Nat) :
    (put bytes o data)[i]? =
      if o ≤ i ∧ i < o + data.length then data[i - o]?
      else if i < bytes.length then bytes[i]?
      else if i < o then some 0 else none := by
  have hmin : min o (bytes.length + (o + data.length - bytes.length)) = o := by omega
  simp only [put, List.getElem?_append, List.getElem?_take, List.getElem?_drop,
    List.length_append, List.length_take, List.length_replicate, List.getElem?_replicate, hmin]
  by_cases hlo : i < o
  · simp only [show i < o + data.length by omega, hlo, if_true]
    by_cases hb : i < bytes.length
    · simp [hb, show ¬o ≤ i by omega]
    · simp [hb, show ¬o ≤ i by omega,
        show i - bytes.length < o + data.length - bytes.length by omega]
  · by_cases hhi : i < o + data.length
    · simp [hhi, hlo, show o ≤ i by omega]
    · have hidx : o + data.length + (i - (o + data.length)) = i := by omega
      simp only [hhi, hlo, if_false, hidx]
      by_cases hb : i < bytes.length
      · simp [hb]
      · simp [hb, show ¬(i - bytes.length < o + data.length - bytes.length) by omega]

theorem window_congr {l l' : List UInt8} {c n : Nat} (h : ∀ j < n, l[c + j]? = l'[c + j]?) :
    (l.drop c).take n = (l'.drop c).take n := by
  apply List.ext_getElem?
  intro j
  simp only [List.getElem?_take, List.getElem?_drop]
  split
  · exact h j ‹_›
  · rfl

theorem window_put_of_apart (bytes : List UInt8) {o c : Nat} {data : List UInt8}
    (hlen : data.length = cellSize) (hc : c + cellSize ≤ bytes.length)
    (hapart : o + cellSize ≤ c ∨ c + cellSize ≤ o) :
    ((put bytes o data).drop c).take cellSize = (bytes.drop c).take cellSize := by
  apply window_congr
  intro j hj
  rw [getElem?_put, if_neg (by simp only [cellSize] at *; omega),
    if_pos (by simp only [cellSize] at *; omega)]

-- ---------------------------------------------------------------------------
-- Writes and reads
-- ---------------------------------------------------------------------------

def Extends (s s' : ByteStore) : Prop := s'.backing = s.backing ∧ s.size ≤ s'.size

theorem Extends.refl (s : ByteStore) : s.Extends s := ⟨rfl, Nat.le_refl _⟩

theorem Extends.trans {s₁ s₂ s₃ : ByteStore} (h₁ : s₁.Extends s₂) (h₂ : s₂.Extends s₃) :
    s₁.Extends s₃ := ⟨h₂.1.trans h₁.1, Nat.le_trans h₁.2 h₂.2⟩

def Seekable (s : ByteStore) (o : Nat) : Prop := ∀ limit, s.backing = .file limit → o ≤ limit

theorem seekable_of_memory {s : ByteStore} (hmem : s.backing = .memory) (o : Nat) : s.Seekable o :=
  fun _ hf => absurd (hmem.symm.trans hf) Backing.noConfusion

theorem write_ok {s s' : ByteStore} {o : Nat} {data : List UInt8} (hne : data ≠ [])
    (h : s.write o data = .ok s') :
    s' = { s with bytes := put s.bytes o data } ∧ s.Seekable o := by
  unfold write at h
  split at h
  · split at h
    · cases h
    · cases h
      next hmem _ => exact ⟨rfl, seekable_of_memory hmem o⟩
  · next limit hfile =>
    split at h
    · cases h
    · split at h
      · simp_all
      · split at h
        · cases h
        · cases h
          refine ⟨rfl, fun l hl => ?_⟩
          rw [hfile, Backing.file.injEq] at hl
          omega

theorem write_extends {s s' : ByteStore} {o : Nat} {data : List UInt8}
    (h : s.write o data = .ok s') : s.Extends s' := by
  by_cases hne : data = []
  · unfold write at h
    split at h
    · split at h
      · cases h
      · cases h
        refine ⟨rfl, ?_⟩
        simp only [size, length_put]
        omega
    · split at h
      · cases h
      · simp only [hne, List.isEmpty_nil, if_true, Except.ok.injEq] at h
        subst h
        exact Extends.refl s
  · obtain ⟨rfl, -⟩ := write_ok hne h
    refine ⟨rfl, ?_⟩
    simp only [size, length_put]
    omega

/-- A cell the store can read: it ends within the store and, in a file,
starts where the file can seek to. -/
def HasCell (s : ByteStore) (c : Nat) : Prop :=
  c + cellSize ≤ s.size ∧ s.Seekable c

theorem HasCell.extend {s s' : ByteStore} {c : Nat} (h : s.HasCell c) (he : s.Extends s') :
    s'.HasCell c :=
  ⟨Nat.le_trans h.1 he.2, fun l hf => h.2 l (he.1 ▸ hf)⟩

theorem read_of_hasCell {s : ByteStore} {c : Nat} (h : s.HasCell c) :
    s.read c cellSize = .ok ((s.bytes.drop c).take cellSize) := by
  unfold read
  split
  · rw [if_pos h.1]
  · next limit hfile =>
    rw [if_neg (Nat.not_lt.mpr (h.2 limit hfile)), if_neg (by simp [cellSize]), if_pos h.1]

theorem hasCell_of_write {s s' : ByteStore} {c : Nat} {data : List UInt8}
    (hlen : data.length = cellSize) (h : s.write c data = .ok s') : s'.HasCell c := by
  have hne : data ≠ [] := fun he => by simp [he, cellSize] at hlen
  obtain ⟨rfl, hseek⟩ := write_ok hne h
  refine ⟨?_, hseek⟩
  simp only [size, length_put, hlen]
  omega

end ByteStore

-- ---------------------------------------------------------------------------
-- Programs that only read, and programs that only grow the store
-- ---------------------------------------------------------------------------

namespace StoreM

theorem runOn_bind_ok {x : StoreM α} {f : α → StoreM β} {s s' : ByteStore} {a : α}
    (h : x.runOn s = (.ok a, s')) : (x >>= f).runOn s = (f a).runOn s' :=
  run_bind_ok h

theorem runOn_bind_error {x : StoreM α} {f : α → StoreM β} {s s' : ByteStore} {e : StoreError}
    (h : x.runOn s = (.error e, s')) : (x >>= f).runOn s = (.error e, s') :=
  run_bind_error h

theorem runOn_bind_eq_ok {x : StoreM α} {f : α → StoreM β} {s s'' : ByteStore} {b : β}
    (h : (x >>= f).runOn s = (.ok b, s'')) :
    ∃ a s', x.runOn s = (.ok a, s') ∧ (f a).runOn s' = (.ok b, s'') := by
  rcases hx : x.runOn s with ⟨r, s'⟩
  cases r with
  | error e => rw [runOn_bind_error hx] at h; cases h
  | ok a => exact ⟨a, s', rfl, (runOn_bind_ok hx).symm.trans h⟩

theorem runOn_ofExcept (r : Except StoreError α) (s : ByteStore) :
    (ofExcept r).runOn s = (r, s) := by
  cases r <;> rfl

theorem runOn_update_ok {r : ByteStore → Except StoreError ByteStore} {s s' : ByteStore}
    (h : r s = .ok s') : (update r).runOn s = (.ok (), s') := by
  simp only [update, runOn, run_bind_ok (run_get_state s), h]
  rfl

theorem runOn_update_error {r : ByteStore → Except StoreError ByteStore} {s : ByteStore}
    {e : StoreError} (h : r s = .error e) : (update r).runOn s = (.error e, s) := by
  simp only [update, runOn, run_bind_ok (run_get_state s), h]
  rfl

theorem update_write_ok {c : Nat} {data : List UInt8} (hlen : data.length = cellSize)
    {s s' : ByteStore} (h : (update (·.write c data)).runOn s = (.ok (), s')) :
    s.Extends s' ∧ s'.HasCell c := by
  cases hw : s.write c data with
  | error e => rw [runOn_update_error hw] at h; cases h
  | ok s'' =>
    rw [runOn_update_ok hw] at h
    cases h
    exact ⟨ByteStore.write_extends hw, ByteStore.hasCell_of_write hlen hw⟩

theorem writeDouble_ok {c : Nat} {x : Binary64} {s s' : ByteStore}
    (h : (writeDouble c x).runOn s = (.ok (), s')) : s.Extends s' ∧ s'.HasCell c :=
  update_write_ok (length_bigEndian _ _) h

theorem writeLong_ok {c : Nat} {n : Int} {s s' : ByteStore}
    (h : (writeLong c n).runOn s = (.ok (), s')) : s.Extends s' ∧ s'.HasCell c :=
  update_write_ok (length_bigEndian _ _) h

/-- A program that writes nothing and whose answer depends only on what it
reads from the cells `cells`. -/
def ReadsOnly (cells : List Nat) (x : StoreM α) : Prop :=
  ∀ s s' : ByteStore, (∀ c ∈ cells, s.read c cellSize = s'.read c cellSize) →
    x.runOn s = ((x.runOn s').1, s)

def Grows (x : StoreM α) : Prop := ∀ s : ByteStore, s.Extends (x.runOn s).2

section
variable {cells : List Nat}

theorem ReadsOnly.pure (a : α) : ReadsOnly cells (pure a : StoreM α) := fun _ _ _ => rfl

theorem ReadsOnly.throw (e : StoreError) : ReadsOnly cells (throw e : StoreM α) :=
  fun _ _ _ => rfl

theorem ReadsOnly.bind {x : StoreM α} {f : α → StoreM β} (hx : ReadsOnly cells x)
    (hf : ∀ a, ReadsOnly cells (f a)) : ReadsOnly cells (x >>= f) := by
  intro s s' hagree
  have h₁ := hx s s' hagree
  have h₂ := hx s' s' fun _ _ => rfl
  -- both runs continue from their own store with the same intermediate answer
  rcases hr : (x.runOn s').1 with e | a
  · rw [runOn_bind_error (h₁.trans (by rw [hr])), runOn_bind_error (h₂.trans (by rw [hr]))]
  · rw [runOn_bind_ok (h₁.trans (by rw [hr])), runOn_bind_ok (h₂.trans (by rw [hr]))]
    exact hf a s s' hagree

theorem ReadsOnly.mono {cells' : List Nat} {x : StoreM α} (hx : ReadsOnly cells x)
    (hsub : ∀ c ∈ cells, c ∈ cells') : ReadsOnly cells' x :=
  fun s s' hagree => hx s s' fun c hc => hagree c (hsub c hc)

theorem ReadsOnly.mapM {l : List α} {f : α → StoreM β} (hf : ∀ a ∈ l, ReadsOnly cells (f a)) :
    ReadsOnly cells (l.mapM f) := by
  induction l with
  | nil => exact ReadsOnly.pure []
  | cons a rest ih =>
    rw [List.mapM_cons]
    exact (hf a List.mem_cons_self).bind fun b =>
      (ih fun a' ha' => hf a' (List.mem_cons_of_mem a ha')).bind fun bs => ReadsOnly.pure _

theorem readDouble_readsOnly {c : Nat} (hc : c ∈ cells) : ReadsOnly cells (readDouble c) := by
  intro s s' hagree
  simp only [readDouble, runOn, run_bind_ok (run_get_state _), ByteStore.readDouble, hagree c hc]
  rcases s'.read c cellSize with e | bs <;> rfl

theorem readLong_readsOnly {c : Nat} (hc : c ∈ cells) : ReadsOnly cells (readLong c) := by
  intro s s' hagree
  simp only [readLong, runOn, run_bind_ok (run_get_state _), ByteStore.readLong, hagree c hc]
  rcases s'.read c cellSize with e | bs <;> rfl

end

theorem Grows.pure (a : α) : Grows (pure a : StoreM α) := fun s => ByteStore.Extends.refl s

theorem Grows.bind {x : StoreM α} {f : α → StoreM β} (hx : Grows x) (hf : ∀ a, Grows (f a)) :
    Grows (x >>= f) := by
  intro s
  have h := hx s
  rcases hr : x.runOn s with ⟨r, s'⟩
  rw [hr] at h
  cases r with
  | error e => rw [runOn_bind_error hr]; exact h
  | ok a => rw [runOn_bind_ok hr]; exact h.trans (hf a s')

theorem Grows.ofExcept (r : Except StoreError α) : Grows (ofExcept r) := by
  intro s
  rw [runOn_ofExcept]
  exact ByteStore.Extends.refl s

theorem writeDouble_grows (c : Nat) (x : Binary64) : Grows (writeDouble c x) := by
  intro s
  cases h : s.writeDouble c x with
  | ok s' => rw [writeDouble, runOn_update_ok h]; exact ByteStore.write_extends h
  | error e => rw [writeDouble, runOn_update_error h]; exact ByteStore.Extends.refl s

theorem writeLong_grows (c : Nat) (n : Int) : Grows (writeLong c n) := by
  intro s
  cases h : s.writeLong c n with
  | ok s' => rw [writeLong, runOn_update_ok h]; exact ByteStore.write_extends h
  | error e => rw [writeLong, runOn_update_error h]; exact ByteStore.Extends.refl s

end StoreM

end RoundRobin
