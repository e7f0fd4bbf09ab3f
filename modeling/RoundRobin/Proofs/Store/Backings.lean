import RoundRobin.Proofs.Store.Calls
import Mathlib.Data.List.Forall2

/-!
# A file store runs like a memory store

Fix a file system whose largest file, its `limit`, is a 64-bit offset. A
memory store and a file store on it that hold the same bytes answer a call
alike and hold the same bytes after it (`StoreCall.run_mirrors`), for every
call that stays within the limit and is not an empty request past the end
(`StoreCall.Portable`): a read answers the same bytes, or fails out of bounds
in memory where the file reports an I/O fault; a write places the same bytes;
the sizes agree. By induction a whole run keeps the two in step
(`StoreCall.trace_mirrors`, `file_store_runs_like_memory`).

Empty requests past the end are where the two part: in memory an empty read
there is out of bounds and an empty write grows the store up to its offset,
while a file reads nothing and writes nothing
(`empty_calls_past_end_differ`).
-/

namespace RoundRobin

variable {limit : Nat}

namespace ByteStore

/-- A memory store and a file store holding the same bytes, no more than the
file system's largest file. -/
def Mirrors (limit : Nat) (m f : ByteStore) : Prop :=
  m.backing = .memory ∧ f.backing = .file limit ∧ m.bytes = f.bytes ∧ m.size ≤ limit

theorem read_file {s : ByteStore} (hfile : s.backing = .file limit) (o len : Nat) :
    s.read o len =
      if limit < o then .error (.io .invalidSeek)
      else if len = 0 then .ok []
      else if o + len ≤ s.size then .ok ((s.bytes.drop o).take len)
      else .error (.io .shortRead) := by
  unfold read
  rw [hfile]

theorem write_file {s : ByteStore} (hfile : s.backing = .file limit) {o : Nat}
    {data : List UInt8} (hfit : o + data.length ≤ limit) :
    s.write o data = if data.isEmpty then .ok s else .ok { s with bytes := put s.bytes o data } := by
  unfold write
  split
  · next hmem => rw [hfile] at hmem; cases hmem
  · next l hl =>
    rw [hfile] at hl
    cases hl
    rw [if_neg (by omega)]
    by_cases he : data.isEmpty
    · rw [if_pos he, if_pos he]
    · rw [if_neg he, if_neg he, if_neg (by omega)]

/-- An empty write to a file within the limit leaves the file as it is. -/
theorem write_file_nil {s : ByteStore} (hfile : s.backing = .file limit) {o : Nat}
    (ho : o ≤ limit) : s.write o [] = .ok s := by
  rw [write_file hfile (show o + ([] : List UInt8).length ≤ limit from ho)]
  rfl

theorem put_nil (bytes : List UInt8) (o : Nat) :
    put bytes o [] = bytes ++ List.replicate (o - bytes.length) 0 := by
  simp only [put, List.length_nil, Nat.add_zero, List.append_nil, List.take_append_drop]

end ByteStore

namespace StoreCall

/-- Answers of a memory store and a file store that correspond: the same
success, or a read out of bounds in memory against an I/O fault of the file. -/
def AnswersAlike : Except StoreError StoreReply → Except StoreError StoreReply → Prop
  | .ok a, .ok b => a = b
  | .error (.outOfBounds ..), .error (.io _) => True
  | _, _ => False

/-- A call both backings take alike on a store of `size` bytes: a write ends
within the file system's limit, and an empty request starts within the
store. -/
def Portable (limit size : Nat) : StoreCall → Prop
  | .read o len => len = 0 → o ≤ size
  | .write o data => o + data.length ≤ limit ∧ (data = [] → o ≤ size)
  | .size => True

def AllPortable (limit : Nat) : List StoreCall → ByteStore → Prop
  | [], _ => True
  | c :: rest, s => c.Portable limit s.size ∧ AllPortable limit rest (c.run.runOn s).2

section
variable {m f : ByteStore}

theorem read_mirrors (h : m.Mirrors limit f) {o len : Nat}
    (hc : (read o len).Portable limit m.size) :
    AnswersAlike ((read o len).run.runOn m).1 ((read o len).run.runOn f).1 ∧
      ByteStore.Mirrors limit ((read o len).run.runOn m).2 ((read o len).run.runOn f).2 := by
  obtain ⟨hm, hf, hbytes, hsize⟩ := h
  have hsizes : f.size = m.size := by rw [ByteStore.size, ← hbytes]; rfl
  refine ⟨?_, by rw [run_read, run_read]; exact ⟨hm, hf, hbytes, hsize⟩⟩
  rw [run_read, run_read, ByteStore.read_memory hm, ByteStore.read_file hf, hsizes, hbytes]
  by_cases hin : o + len ≤ m.size
  · rw [if_pos hin, if_neg (by omega)]
    by_cases hlen : len = 0
    · subst hlen
      rw [if_pos rfl]
      exact congrArg StoreReply.bytes List.take_zero
    · rw [if_neg hlen, if_pos hin]
      rfl
  · rw [if_neg hin]
    split
    · trivial
    · split
      · next hlen => exact absurd (hc hlen) (by omega)
      · trivial

theorem write_mirrors (hlimit : limit ≤ ByteStore.offsetMax) (h : m.Mirrors limit f) {o : Nat}
    {data : List UInt8} (hc : (write o data).Portable limit m.size) :
    AnswersAlike ((write o data).run.runOn m).1 ((write o data).run.runOn f).1 ∧
      ByteStore.Mirrors limit ((write o data).run.runOn m).2 ((write o data).run.runOn f).2 := by
  obtain ⟨hm, hf, hbytes, hsize⟩ := h
  obtain ⟨hend, hempty⟩ := hc
  rw [run_write_ok (ByteStore.write_memory hm (Nat.le_trans hend hlimit))]
  have hlen : (ByteStore.put m.bytes o data).length ≤ limit := by
    rw [ByteStore.length_put]
    exact Nat.max_le.mpr ⟨hsize, hend⟩
  cases data with
  | nil =>
    have ho : o ≤ m.bytes.length := hempty rfl
    rw [run_write_ok (ByteStore.write_file_nil hf (show o ≤ limit from hend))]
    refine ⟨rfl, hm, hf, ?_, hlen⟩
    show ByteStore.put m.bytes o [] = f.bytes
    rw [ByteStore.put_nil, Nat.sub_eq_zero_of_le ho, List.replicate_zero, List.append_nil, hbytes]
  | cons b rest =>
    have hw : f.write o (b :: rest) = .ok { f with bytes := ByteStore.put f.bytes o (b :: rest) } := by
      rw [ByteStore.write_file hf hend]
      rfl
    rw [run_write_ok hw]
    exact ⟨rfl, hm, hf, by rw [hbytes], hlen⟩

theorem run_mirrors (hlimit : limit ≤ ByteStore.offsetMax) (h : m.Mirrors limit f) {c : StoreCall}
    (hc : c.Portable limit m.size) :
    AnswersAlike (c.run.runOn m).1 (c.run.runOn f).1 ∧
      ByteStore.Mirrors limit (c.run.runOn m).2 (c.run.runOn f).2 := by
  cases c with
  | read o len => exact read_mirrors h hc
  | write o data => exact write_mirrors hlimit h hc
  | size =>
    obtain ⟨hm, hf, hbytes, hsize⟩ := h
    rw [run_size, run_size]
    refine ⟨?_, hm, hf, hbytes, hsize⟩
    show StoreReply.size m.bytes.length = StoreReply.size f.bytes.length
    rw [hbytes]

end

theorem trace_mirrors (hlimit : limit ≤ ByteStore.offsetMax) :
    ∀ (calls : List StoreCall) {m f : ByteStore}, m.Mirrors limit f → AllPortable limit calls m →
      List.Forall₂ (fun a b => AnswersAlike a.1 b.1 ∧ ByteStore.Mirrors limit a.2 b.2)
        (trace calls m) (trace calls f)
  | [], _, _, _, _ => .nil
  | c :: rest, _, _, h, ⟨hc, hrest⟩ => by
    have hstep := run_mirrors hlimit h hc
    exact .cons hstep (trace_mirrors hlimit rest hstep.2 hrest)

end StoreCall

-- ---------------------------------------------------------------------------
-- One content, two backings
-- ---------------------------------------------------------------------------

theorem file_store_runs_like_memory (limit : Nat) (hlimit : limit ≤ ByteStore.offsetMax)
    (bytes : List UInt8) (hfits : bytes.length ≤ limit) :
    (∀ calls : List StoreCall, StoreCall.AllPortable limit calls ⟨.memory, bytes⟩ →
      List.Forall₂ (fun m f => StoreCall.AnswersAlike m.1 f.1 ∧ m.2.bytes = f.2.bytes)
        (StoreCall.trace calls ⟨.memory, bytes⟩) (StoreCall.trace calls ⟨.file limit, bytes⟩)) ∧
    ∀ o, bytes.length < o → o ≤ limit →
      (StoreCall.read o 0).run.runOn ⟨.memory, bytes⟩ =
          (.error (.outOfBounds o 0 bytes.length), ⟨.memory, bytes⟩) ∧
        (StoreCall.read o 0).run.runOn ⟨.file limit, bytes⟩ =
          (.ok (.bytes []), ⟨.file limit, bytes⟩) ∧
        (StoreCall.write o []).run.runOn ⟨.memory, bytes⟩ =
          (.ok .done, ⟨.memory, bytes ++ List.replicate (o - bytes.length) 0⟩) ∧
        (StoreCall.write o []).run.runOn ⟨.file limit, bytes⟩ =
          (.ok .done, ⟨.file limit, bytes⟩) := by
  refine ⟨fun calls hcalls => ?_, fun o hpast hseek => ⟨?_, ?_, ?_, ?_⟩⟩
  · have hmirror : ByteStore.Mirrors limit ⟨.memory, bytes⟩ ⟨.file limit, bytes⟩ :=
      ⟨rfl, rfl, rfl, hfits⟩
    exact (StoreCall.trace_mirrors hlimit calls hmirror hcalls).imp fun _ _ h => ⟨h.1, h.2.2.2.1⟩
  · rw [StoreCall.run_read, ByteStore.read_memory rfl, if_neg (by simp only [ByteStore.size]; omega)]
    rfl
  · rw [StoreCall.run_read, ByteStore.read_file rfl, if_neg (Nat.not_lt.mpr hseek), if_pos rfl]
    rfl
  · have hfit : o + ([] : List UInt8).length ≤ ByteStore.offsetMax := Nat.le_trans hseek hlimit
    rw [StoreCall.run_write_ok (ByteStore.write_memory rfl hfit)]
    dsimp only
    rw [ByteStore.put_nil]
  · rw [StoreCall.run_write_ok (ByteStore.write_file_nil rfl hseek)]

/-- Two bytes held in memory and in a file of the largest size Linux allows,
`2 ^ 63 - 1` bytes. -/
theorem file_store_runs_like_memory_over_two_bytes :
    let limit := Nat.pow 2 63 - 1
    let bytes : List UInt8 := [1, 2]
    limit ≤ ByteStore.offsetMax ∧ bytes.length ≤ limit ∧
    (∀ calls : List StoreCall, StoreCall.AllPortable limit calls ⟨.memory, bytes⟩ →
      List.Forall₂ (fun m f => StoreCall.AnswersAlike m.1 f.1 ∧ m.2.bytes = f.2.bytes)
        (StoreCall.trace calls ⟨.memory, bytes⟩) (StoreCall.trace calls ⟨.file limit, bytes⟩)) ∧
    ∀ o, bytes.length < o → o ≤ limit →
      (StoreCall.read o 0).run.runOn ⟨.memory, bytes⟩ =
          (.error (.outOfBounds o 0 bytes.length), ⟨.memory, bytes⟩) ∧
        (StoreCall.read o 0).run.runOn ⟨.file limit, bytes⟩ =
          (.ok (.bytes []), ⟨.file limit, bytes⟩) ∧
        (StoreCall.write o []).run.runOn ⟨.memory, bytes⟩ =
          (.ok .done, ⟨.memory, bytes ++ List.replicate (o - bytes.length) 0⟩) ∧
        (StoreCall.write o []).run.runOn ⟨.file limit, bytes⟩ =
          (.ok .done, ⟨.file limit, bytes⟩) :=
  ⟨by decide, by decide, file_store_runs_like_memory _ (by decide) _ (by decide)⟩

/-- Over two bytes in a file on a file system whose largest file is
`2 ^ 32 - 1` blocks of 4096 bytes, an empty read and an empty write past the
end: memory refuses the read and grows to the write's offset, while the file
reads nothing and stays as it was. -/
theorem empty_calls_past_end_differ :
    let limit := (Nat.pow 2 32 - 1) * 4096
    StoreCall.trace [.read 5 0, .write 6 [], .size] ⟨.memory, [1, 2]⟩ =
        [(.error (.outOfBounds 5 0 2), ⟨.memory, [1, 2]⟩),
          (.ok .done, ⟨.memory, [1, 2, 0, 0, 0, 0]⟩), (.ok (.size 6), ⟨.memory, [1, 2, 0, 0, 0, 0]⟩)] ∧
      StoreCall.trace [.read 5 0, .write 6 [], .size] ⟨.file limit, [1, 2]⟩ =
        [(.ok (.bytes []), ⟨.file limit, [1, 2]⟩), (.ok .done, ⟨.file limit, [1, 2]⟩),
          (.ok (.size 2), ⟨.file limit, [1, 2]⟩)] := by
  decide

end RoundRobin
