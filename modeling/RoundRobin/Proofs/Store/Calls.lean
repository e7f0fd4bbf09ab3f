import RoundRobin.Proofs.Store.Frame
import Mathlib.Tactic.SplitIfs

/-!
# Calls on a store

The users of a store make three calls on it: read some bytes, write some
bytes, ask its size. `StoreCall.run` is each call as a store program, as a
session runs it, and `StoreCall.trace` runs calls in order, each on the store
the one before left. Handles to a store share that one store, so calls made
through several of them are one such sequence.

In memory the store is a zero-filled growable byte array
(`memory_store_is_byte_array`): a read answers the bytes it covers when it
ends within the store and is out of bounds otherwise, changing nothing; a
write whose end fits in 64 bits places its data, grows the store to its end
and fills a gap with zeros, and one that does not fit is refused and changes
nothing. So a read within the last write gives back its data
(`window_put_within`), and writes to disjoint ranges commute (`put_comm`).
-/

namespace RoundRobin

inductive StoreCall where
  | read (offset len : Nat)
  | write (offset : Nat) (data : List UInt8)
  | size
  deriving DecidableEq

inductive StoreReply where
  | bytes (data : List UInt8)
  | done
  | size (n : Nat)
  deriving DecidableEq

namespace StoreCall

def run : StoreCall → StoreM StoreReply
  | .read offset len => do return .bytes (← StoreM.ofExcept ((← get).read offset len))
  | .write offset data => do
    StoreM.update (·.write offset data)
    return .done
  | .size => do return .size (← get).size

def trace : List StoreCall → ByteStore → List (Except StoreError StoreReply × ByteStore)
  | [], _ => []
  | c :: rest, s =>
    let out := c.run.runOn s
    out :: trace rest out.2

theorem run_read (o len : Nat) (s : ByteStore) :
    (read o len).run.runOn s = ((s.read o len).map .bytes, s) := by
  simp only [run, StoreM.runOn, run_bind_ok (run_get_state s)]
  cases h : s.read o len with
  | error e => exact run_bind_error (StoreM.runOn_ofExcept _ s)
  | ok bs => exact (run_bind_ok (StoreM.runOn_ofExcept (.ok bs) s)).trans rfl

theorem run_write_ok {o : Nat} {data : List UInt8} {s s' : ByteStore} (h : s.write o data = .ok s') :
    (write o data).run.runOn s = (.ok .done, s') := by
  rw [run, StoreM.runOn_bind_ok (StoreM.runOn_update_ok h)]
  rfl

theorem run_write_error {o : Nat} {data : List UInt8} {s : ByteStore} {e : StoreError}
    (h : s.write o data = .error e) : (write o data).run.runOn s = (.error e, s) := by
  rw [run, StoreM.runOn_bind_error (StoreM.runOn_update_error h)]

theorem run_size (s : ByteStore) : size.run.runOn s = (.ok (.size s.size), s) := rfl

theorem run_backing (c : StoreCall) (s : ByteStore) : (c.run.runOn s).2.backing = s.backing := by
  cases c with
  | read o len => rw [run_read]
  | write o data =>
    cases h : s.write o data with
    | error e => rw [run_write_error h]
    | ok s' => rw [run_write_ok h]; exact (ByteStore.write_extends h).1
  | size => rfl

theorem trace_backing :
    ∀ (calls : List StoreCall) (s : ByteStore), ∀ out ∈ trace calls s, out.2.backing = s.backing
  | [], _, _, h => by cases h
  | c :: rest, s, out, h => by
    rcases List.mem_cons.mp h with rfl | h
    · exact run_backing c s
    · exact (trace_backing rest _ out h).trans (run_backing c s)

end StoreCall

-- ---------------------------------------------------------------------------
-- A memory store
-- ---------------------------------------------------------------------------

namespace ByteStore

theorem read_memory {s : ByteStore} (hmem : s.backing = .memory) (o len : Nat) :
    s.read o len = if o + len ≤ s.size then .ok ((s.bytes.drop o).take len)
      else .error (.outOfBounds o len s.size) := by
  unfold read
  rw [hmem]

theorem write_memory {s : ByteStore} {o : Nat} {data : List UInt8} (hmem : s.backing = .memory)
    (hfit : o + data.length ≤ offsetMax) :
    s.write o data = .ok { s with bytes := put s.bytes o data } := by
  unfold write
  rw [hmem]
  exact if_neg (Nat.not_lt.mpr hfit)

theorem write_memory_overflow {s : ByteStore} {o : Nat} {data : List UInt8}
    (hmem : s.backing = .memory) (hover : offsetMax < o + data.length) :
    s.write o data = .error (.invalidValue s!"write at offset {o} overflows") := by
  unfold write
  rw [hmem]
  exact if_pos hover

theorem window_put_within (bytes : List UInt8) {o o' len : Nat} {data : List UInt8}
    (hlo : o ≤ o') (hhi : o' + len ≤ o + data.length) :
    ((put bytes o data).drop o').take len = (data.drop (o' - o)).take len := by
  apply List.ext_getElem?
  intro j
  simp only [List.getElem?_take, List.getElem?_drop]
  split
  · rw [getElem?_put, if_pos (by omega)]
    congr 1
    omega
  · rfl

theorem put_comm (bytes : List UInt8) {o o' : Nat} {data data' : List UInt8}
    (hapart : o + data.length ≤ o' ∨ o' + data'.length ≤ o) :
    put (put bytes o data) o' data' = put (put bytes o' data') o data := by
  apply List.ext_getElem?
  intro i
  simp only [getElem?_put, length_put]
  -- a byte lies in at most one of the two ranges; outside both, each side keeps
  -- the old byte or fills a gap with zero
  split_ifs <;> first | rfl | omega

section
variable {s : ByteStore} {c : Nat}

theorem writeDouble_memory (hmem : s.backing = .memory) (hfit : c + cellSize ≤ offsetMax) (x : Binary64) :
    s.writeDouble c x = .ok { s with bytes := put s.bytes c (bigEndian cellSize x.bits.toNat) } :=
  write_memory hmem (by rw [length_bigEndian]; exact hfit)

theorem writeLong_memory (hmem : s.backing = .memory) (hfit : c + cellSize ≤ offsetMax) (n : Int) :
    s.writeLong c n =
      .ok { s with bytes := put s.bytes c (bigEndian cellSize (n % Int.pow 2 64).toNat) } :=
  write_memory hmem (by rw [length_bigEndian]; exact hfit)

theorem read_memory_error (hmem : s.backing = .memory) {o len : Nat} {e : StoreError}
    (h : s.read o len = .error e) : e = .outOfBounds o len s.size := by
  rw [read_memory hmem] at h
  split at h
  · cases h
  · cases h
    rfl

end

end ByteStore

-- ---------------------------------------------------------------------------
-- The laws of a memory store
-- ---------------------------------------------------------------------------

theorem memory_store_is_byte_array (s : ByteStore) (hmem : s.backing = .memory) :
    (∀ calls : List StoreCall, ∀ out ∈ StoreCall.trace calls s, out.2.backing = .memory) ∧
    (∀ o len, (StoreCall.read o len).run.runOn s =
      (if o + len ≤ s.size then .ok (.bytes ((s.bytes.drop o).take len))
        else .error (.outOfBounds o len s.size), s)) ∧
    (∀ o data, o + data.length ≤ ByteStore.offsetMax →
      ∃ s', (StoreCall.write o data).run.runOn s = (.ok .done, s') ∧ s'.backing = .memory ∧
        s'.size = max s.size (o + data.length) ∧
        ∀ i, s'.bytes[i]? = if o ≤ i ∧ i < o + data.length then data[i - o]?
          else if i < s.size then s.bytes[i]? else if i < o then some 0 else none) ∧
    (∀ o data, ByteStore.offsetMax < o + data.length →
      (StoreCall.write o data).run.runOn s =
        (.error (.invalidValue s!"write at offset {o} overflows"), s)) ∧
    StoreCall.size.run.runOn s = (.ok (.size s.size), s) ∧
    (∀ o data o' len, o + data.length ≤ ByteStore.offsetMax → o ≤ o' → o' + len ≤ o + data.length →
      ((StoreCall.read o' len).run.runOn ((StoreCall.write o data).run.runOn s).2).1 =
        .ok (.bytes ((data.drop (o' - o)).take len))) ∧
    (∀ o data o' data', o + data.length ≤ ByteStore.offsetMax →
      o' + data'.length ≤ ByteStore.offsetMax → (o + data.length ≤ o' ∨ o' + data'.length ≤ o) →
      ((StoreCall.write o' data').run.runOn ((StoreCall.write o data).run.runOn s).2).2 =
        ((StoreCall.write o data).run.runOn ((StoreCall.write o' data').run.runOn s).2).2) := by
  refine ⟨fun calls out hout => (StoreCall.trace_backing calls s out hout).trans hmem,
    fun o len => ?_, fun o data hfit => ?_, fun o data hover => ?_, rfl,
    fun o data o' len hfit hlo hhi => ?_, fun o data o' data' hfit hfit' hapart => ?_⟩
  · rw [StoreCall.run_read, ByteStore.read_memory hmem]
    split <;> rfl
  · refine ⟨_, StoreCall.run_write_ok (ByteStore.write_memory hmem hfit), hmem,
      ByteStore.length_put _ _ _, ByteStore.getElem?_put _ _ _⟩
  · exact StoreCall.run_write_error (ByteStore.write_memory_overflow hmem hover)
  · have hmem₁ : ({ s with bytes := ByteStore.put s.bytes o data } : ByteStore).backing = .memory :=
      hmem
    have hsize : o' + len ≤ ({ s with bytes := ByteStore.put s.bytes o data } : ByteStore).size := by
      rw [ByteStore.size, ByteStore.length_put]
      omega
    rw [StoreCall.run_write_ok (ByteStore.write_memory hmem hfit)]
    dsimp only
    rw [StoreCall.run_read, ByteStore.read_memory hmem₁, if_pos hsize]
    dsimp only
    rw [ByteStore.window_put_within _ hlo hhi]
    rfl
  · have hmem₁ : ({ s with bytes := ByteStore.put s.bytes o data } : ByteStore).backing = .memory :=
      hmem
    have hmem₂ : ({ s with bytes := ByteStore.put s.bytes o' data' } : ByteStore).backing = .memory :=
      hmem
    rw [StoreCall.run_write_ok (ByteStore.write_memory hmem hfit),
      StoreCall.run_write_ok (ByteStore.write_memory hmem hfit')]
    dsimp only
    rw [StoreCall.run_write_ok (ByteStore.write_memory hmem₁ hfit'),
      StoreCall.run_write_ok (ByteStore.write_memory hmem₂ hfit)]
    dsimp only
    rw [ByteStore.put_comm _ hapart]

/-- A store of two bytes in memory. -/
theorem memory_store_is_byte_array_of_two_bytes :
    let s : ByteStore := ⟨.memory, [1, 2]⟩
    s.backing = .memory ∧
    (∀ calls : List StoreCall, ∀ out ∈ StoreCall.trace calls s, out.2.backing = .memory) ∧
    (∀ o len, (StoreCall.read o len).run.runOn s =
      (if o + len ≤ s.size then .ok (.bytes ((s.bytes.drop o).take len))
        else .error (.outOfBounds o len s.size), s)) ∧
    (∀ o data, o + data.length ≤ ByteStore.offsetMax →
      ∃ s', (StoreCall.write o data).run.runOn s = (.ok .done, s') ∧ s'.backing = .memory ∧
        s'.size = max s.size (o + data.length) ∧
        ∀ i, s'.bytes[i]? = if o ≤ i ∧ i < o + data.length then data[i - o]?
          else if i < s.size then s.bytes[i]? else if i < o then some 0 else none) ∧
    (∀ o data, ByteStore.offsetMax < o + data.length →
      (StoreCall.write o data).run.runOn s =
        (.error (.invalidValue s!"write at offset {o} overflows"), s)) ∧
    StoreCall.size.run.runOn s = (.ok (.size s.size), s) ∧
    (∀ o data o' len, o + data.length ≤ ByteStore.offsetMax → o ≤ o' → o' + len ≤ o + data.length →
      ((StoreCall.read o' len).run.runOn ((StoreCall.write o data).run.runOn s).2).1 =
        .ok (.bytes ((data.drop (o' - o)).take len))) ∧
    (∀ o data o' data', o + data.length ≤ ByteStore.offsetMax →
      o' + data'.length ≤ ByteStore.offsetMax → (o + data.length ≤ o' ∨ o' + data'.length ≤ o) →
      ((StoreCall.write o' data').run.runOn ((StoreCall.write o data).run.runOn s).2).2 =
        ((StoreCall.write o data).run.runOn ((StoreCall.write o' data').run.runOn s).2).2) :=
  ⟨rfl, memory_store_is_byte_array _ rfl⟩

end RoundRobin
