import RoundRobin.Proofs.Store.Frame
import RoundRobin.Number.Signed

/-!
# A cell reads back what was written

Big-endian bytes of width `w` decode to their number modulo `256 ^ w`
(`ofBigEndian_bigEndian`), so a cell written with a double reads back that
double, bit for bit, and a cell written with a 64-bit signed integer reads
back that integer (`readDouble_of_read`, `readLong_of_read`). A write places
its bytes as the window it covers and leaves every cell apart from it that
the store held (`read_put_self`, `read_put_of_apart`).
-/

namespace RoundRobin

-- ---------------------------------------------------------------------------
-- Big-endian numbers
-- ---------------------------------------------------------------------------

theorem foldl_ofBigEndian (acc : Nat) (bs : List UInt8) :
    bs.foldl (fun acc b => acc * 256 + b.toNat) acc =
      acc * Nat.pow 256 bs.length + ofBigEndian bs := by
  induction bs generalizing acc with
  | nil => simp [ofBigEndian]
  | cons b rest ih =>
    unfold ofBigEndian
    rw [List.foldl_cons, List.foldl_cons, ih, ih (0 * 256 + b.toNat), List.length_cons]
    show _ = acc * (Nat.pow 256 rest.length * 256) + _
    rw [Nat.add_mul, Nat.zero_mul, Nat.zero_add, Nat.mul_right_comm acc 256]
    ac_rfl

theorem bigEndian_succ (w n : Nat) :
    bigEndian (w + 1) n = UInt8.ofNat (n / Nat.pow 2 (8 * w)) :: bigEndian w n := by
  simp only [bigEndian, List.range_succ, List.reverse_append, List.reverse_singleton,
    List.singleton_append, List.map_cons]

theorem ofBigEndian_bigEndian (w n : Nat) :
    ofBigEndian (bigEndian w n) = n % Nat.pow 2 (8 * w) := by
  induction w with
  | zero => simp [bigEndian, ofBigEndian, Nat.mod_one]
  | succ w ih =>
    have hP : Nat.pow 2 (8 * (w + 1)) = Nat.pow 2 (8 * w) * 256 := Nat.pow_add 2 (8 * w) 8
    have h256 : Nat.pow 256 w = Nat.pow 2 (8 * w) := (Nat.pow_mul 2 8 w).symm
    rw [bigEndian_succ]
    unfold ofBigEndian
    -- the leading byte is the digit of `256 ^ w` that `n % 256 ^ (w + 1)` adds
    rw [List.foldl_cons, foldl_ofBigEndian, length_bigEndian, h256, ih, hP, Nat.mod_mul,
      UInt8.toNat_ofNat', Nat.zero_mul, Nat.zero_add, Nat.add_comm, Nat.mul_comm (n / _ % _)]

namespace ByteStore

theorem signedOf_emod {n : Int} (hlo : Signed64.min ≤ n) (hhi : n ≤ Signed64.max) :
    signedOf ((n % Int.pow 2 64).toNat) = n := by
  have h64 : Int.pow 2 64 = 18446744073709551616 := rfl
  have h63 : Nat.pow 2 63 = 9223372036854775808 := rfl
  have hmin : Signed64.min = -9223372036854775808 := rfl
  have hmax : Signed64.max = 9223372036854775807 := rfl
  rw [hmin] at hlo
  rw [hmax] at hhi
  unfold signedOf
  rw [h64, h63]
  split <;> omega

-- ---------------------------------------------------------------------------
-- Reading a written cell
-- ---------------------------------------------------------------------------

theorem window_put_self (bytes : List UInt8) (o : Nat) (data : List UInt8) :
    ((put bytes o data).drop o).take data.length = data := by
  apply List.ext_getElem?
  intro j
  simp only [List.getElem?_take, List.getElem?_drop]
  split
  · rw [getElem?_put, if_pos (by omega), Nat.add_sub_cancel_left]
  · rw [List.getElem?_eq_none (by omega)]

theorem read_put_self {s : ByteStore} {c : Nat} {data : List UInt8} (hlen : data.length = cellSize)
    (hseek : s.Seekable c) :
    ({ s with bytes := put s.bytes c data } : ByteStore).read c cellSize = .ok data := by
  have hcell : ({ s with bytes := put s.bytes c data } : ByteStore).HasCell c := by
    refine ⟨?_, hseek⟩
    simp only [size, length_put, hlen]
    omega
  rw [read_of_hasCell hcell, ← hlen, window_put_self]

theorem le_size_of_read_ok {s : ByteStore} {o len : Nat} {bs : List UInt8} (hlen : 0 < len)
    (h : s.read o len = .ok bs) : o + len ≤ s.size := by
  unfold read at h
  split at h
  · split at h
    · assumption
    · cases h
  · split at h
    · cases h
    · split at h
      · omega
      · split at h
        · assumption
        · cases h

/-- A read of a cell that lies within the store and apart from a written cell
is the same after the write. -/
theorem read_put_of_apart {s : ByteStore} {c d : Nat} {data : List UInt8}
    (hlen : data.length = cellSize) (hd : d + cellSize ≤ s.size)
    (hapart : c + cellSize ≤ d ∨ d + cellSize ≤ c) :
    ({ s with bytes := put s.bytes c data } : ByteStore).read d cellSize = s.read d cellSize := by
  have hsize : d + cellSize ≤ (put s.bytes c data).length := by
    rw [length_put]
    exact Nat.le_trans hd (Nat.le_max_left _ _)
  have hwin := window_put_of_apart s.bytes hlen hd hapart
  have hd : d + cellSize ≤ s.bytes.length := hd
  unfold read
  cases s.backing with
  | memory => simp [size, hsize, hd, hwin]
  | file limit =>
    by_cases hseek : limit < d
    · simp only [if_pos hseek]
    · simp [hseek, size, hsize, hd, hwin]

theorem readDouble_of_read {s : ByteStore} {c : Nat} {x : Binary64}
    (h : s.read c cellSize = .ok (bigEndian cellSize x.bits.toNat)) : s.readDouble c = .ok x := by
  rw [readDouble, h]
  show Except.ok (Binary64.mk (UInt64.ofNat (ofBigEndian (bigEndian 8 x.bits.toNat)))) = _
  rw [ofBigEndian_bigEndian, Nat.mod_eq_of_lt x.bits.toNat_lt, UInt64.ofNat_toNat]

theorem readLong_of_read {s : ByteStore} {c : Nat} {n : Int} (hlo : Signed64.min ≤ n)
    (hhi : n ≤ Signed64.max) (h : s.read c cellSize = .ok (bigEndian cellSize (n % Int.pow 2 64).toNat)) :
    s.readLong c = .ok n := by
  rw [readLong, h]
  show Except.ok (signedOf (ofBigEndian (bigEndian 8 (n % Int.pow 2 64).toNat))) = _
  have hlt : (n % Int.pow 2 64).toNat < Nat.pow 2 (8 * 8) := by
    have h64 : Int.pow 2 64 = 18446744073709551616 := rfl
    have h8 : Nat.pow 2 (8 * 8) = 18446744073709551616 := rfl
    rw [h64, h8]
    omega
  rw [ofBigEndian_bigEndian, Nat.mod_eq_of_lt hlt, signedOf_emod hlo hhi]

end ByteStore

-- ---------------------------------------------------------------------------
-- Cell programs
-- ---------------------------------------------------------------------------

namespace StoreM

theorem readDouble_runOn (c : Nat) (s : ByteStore) : (readDouble c).runOn s = (s.readDouble c, s) := by
  simp only [readDouble, runOn, run_bind_ok (run_get_state s)]
  exact runOn_ofExcept _ s

theorem readLong_runOn (c : Nat) (s : ByteStore) : (readLong c).runOn s = (s.readLong c, s) := by
  simp only [readLong, runOn, run_bind_ok (run_get_state s)]
  exact runOn_ofExcept _ s

theorem update_write_runOn_ok {c : Nat} {data : List UInt8} (hlen : data.length = cellSize)
    {s s' : ByteStore} (h : (update (·.write c data)).runOn s = (.ok (), s')) :
    s' = { s with bytes := ByteStore.put s.bytes c data } := by
  cases hw : s.write c data with
  | error e => rw [runOn_update_error hw] at h; cases h
  | ok s'' =>
    rw [runOn_update_ok hw] at h
    cases h
    have hne : data ≠ [] := fun he => by simp [he, cellSize] at hlen
    exact (ByteStore.write_ok hne hw).1

theorem writeDouble_runOn_ok {c : Nat} {x : Binary64} {s s' : ByteStore}
    (h : (writeDouble c x).runOn s = (.ok (), s')) :
    s' = { s with bytes := ByteStore.put s.bytes c (bigEndian cellSize x.bits.toNat) } :=
  update_write_runOn_ok (length_bigEndian _ _) h

theorem writeLong_runOn_ok {c : Nat} {n : Int} {s s' : ByteStore}
    (h : (writeLong c n).runOn s = (.ok (), s')) :
    s' = { s with bytes := ByteStore.put s.bytes c (bigEndian cellSize (n % Int.pow 2 64).toNat) } :=
  update_write_runOn_ok (length_bigEndian _ _) h

theorem update_runOn (r : ByteStore → Except StoreError ByteStore) (s : ByteStore) :
    (update r).runOn s = match r s with
      | .ok s' => (.ok (), s')
      | .error e => (.error e, s) := by
  cases h : r s with
  | ok s' => exact runOn_update_ok h
  | error e => exact runOn_update_error h

theorem writeDouble_runOn (c : Nat) (x : Binary64) (s : ByteStore) :
    (writeDouble c x).runOn s = match s.writeDouble c x with
      | .ok s' => (.ok (), s')
      | .error e => (.error e, s) :=
  update_runOn _ s

theorem writeLong_runOn (c : Nat) (n : Int) (s : ByteStore) :
    (writeLong c n).runOn s = match s.writeLong c n with
      | .ok s' => (.ok (), s')
      | .error e => (.error e, s) :=
  update_runOn _ s


end StoreM

end RoundRobin
