import RoundRobin.Proofs.Number.Shortest
import RoundRobin.Proofs.Number.Layout

/-!
# The diagnostic text reads back exactly

`Binary64.diagnosticText` writes the shortest decimal that reads back, and
`Binary64.readText` reads it as the very same pattern: the sign is written
for negative zero, subnormals and the largest doubles are reached like any
other, and the positional and scientific layouts on either side of `1e-3`
and `1e7` both read back. NaN reads back as the quiet NaN and the infinities
as themselves. No decimal of fewer digits reads as the double
(`diagnosticText_reads_back`).
-/

namespace RoundRobin

namespace Binary64

theorem eq_infinity_of_shape {x : Binary64} {negative : Bool} (h : x.shape = .infinite negative) :
    x = infinity negative := by
  have hb := biasedExponent_lt x
  unfold shape topExponent at h
  split at h
  · rename_i htop
    split at h
    · rename_i hf
      cases h
      unfold infinity topExponent
      refine eq_of_fields (by simp) ?_ ?_
      · simp only [biasedExponent_ofFields, Nat.pow_eq]
        omega
      · simp only [fraction_ofFields, hf, Nat.zero_mod]
    · cases h
  · split at h <;> cases h

theorem isNaN_of_shape_nan {x : Binary64} (h : x.shape = .nan) : x.isNaN = true := by
  unfold isNaN
  rw [h]
  rfl

theorem isNaN_of_shape_infinite {x : Binary64} {negative : Bool} (h : x.shape = .infinite negative) :
    x.isNaN = false := by
  unfold isNaN
  rw [h]
  rfl

theorem isNaN_of_shape_finite {x : Binary64} {negative : Bool} {m : Nat} {e : Int}
    (h : x.shape = .finite negative m e) : x.isNaN = false := by
  unfold isNaN
  rw [h]
  rfl

theorem readsBack_shortestOf {x : Binary64} {negative : Bool} {m : Nat} {e : Int}
    (hx : x.shape = .finite negative m e) (tie : Tie) :
    ReadsBack m e ((shortestOf m e x.narrowBelow tie).digits *
      10 ^ (shortestOf m e x.narrowBelow tie).exponent) := by
  have hc := canonical_of_shape hx
  by_cases hm : m = 0
  · subst hm
    unfold shortestOf
    rw [if_pos rfl, Nat.cast_zero, zero_mul]
    have he : e = -1074 := by
      by_contra he
      have := hc.normal he
      omega
    subst he
    exact readsBack_zero le_rfl (by positivity)
  · exact shortestOf_readsBack hc hm (narrowBelow_eq hx)

theorem diagnosticText_of_finite {x : Binary64} {negative : Bool} {m : Nat} {e : Int}
    (hx : x.shape = .finite negative m e) :
    diagnosticText x = String.ofList ((if negative then ['-'] else []) ++
      Notation.diagnostic.digitsText
        ((shortestOf m e x.narrowBelow Notation.diagnostic.tie).digitChars
          (decimalLength (shortestOf m e x.narrowBelow Notation.diagnostic.tie).digits))
        ((shortestOf m e x.narrowBelow Notation.diagnostic.tie).point
          (decimalLength (shortestOf m e x.narrowBelow Notation.diagnostic.tie).digits))) := by
  unfold diagnosticText Notation.shortest
  rw [withSpecials_finite _ _ hx]

theorem readText_diagnosticText_of_finite {x : Binary64} {negative : Bool} {m : Nat} {e : Int}
    (hx : x.shape = .finite negative m e) : readText (diagnosticText x) = .ok x := by
  set d := shortestOf m e x.narrowBelow Notation.diagnostic.tie
  set w := decimalLength d.digits
  have hlen : (d.digitChars w).length = w := by
    unfold Decimal.digitChars
    rw [length_decimalDigits, Nat.max_self]
  have hne : d.digitChars w ≠ [] := by
    intro h
    have := decimalLength_pos d.digits
    rw [h, List.length_nil] at hlen
    omega
  have hdig : ∀ c ∈ d.digitChars w, c.isDigit = true := fun _ h => isDigit_of_mem_decimalDigits h
  obtain ⟨d', hread, hval⟩ := readText_digitsText Notation.diagnostic (.inl rfl) hne hdig
    (readsAs_digitsText Notation.diagnostic rfl (.inl rfl) (.inl rfl) hne hdig (d.point w)) negative
  have hvalue : (d'.digits : ℚ) * 10 ^ d'.exponent = d.digits * 10 ^ d.exponent := by
    have h := hval
    unfold decimalValue Decimal.point at h
    rw [h, hlen, add_sub_cancel_left]
    unfold Decimal.digitChars
    rw [digitsValue_decimalDigits]
  have hr := readsBack_shortestOf hx Notation.diagnostic.tie
  rw [← hvalue] at hr
  rw [diagnosticText_of_finite hx, hread, ofDecimal_of_readsBack (canonical_of_shape hx) hr,
    ofShape_of_shape hx]

/-- The diagnostic text reads back as the double it was written from, NaN as
the quiet NaN; and no decimal with fewer digits than the written ones reads
as a finite double. -/
theorem diagnosticText_reads_back (x : Binary64) :
    readText (diagnosticText x) = .ok (if x.isNaN then nan else x) ∧
      ∀ negative m e, x.shape = .finite negative m e → ∀ s D P, ofDecimal s D P = x →
        decimalLength (shortestOf m e x.narrowBelow Notation.diagnostic.tie).digits ≤
          decimalLength D := by
  refine ⟨?_, ?_⟩
  · cases hs : x.shape with
    | nan =>
      rw [if_pos (isNaN_of_shape_nan hs)]
      unfold diagnosticText Notation.shortest
      rw [withSpecials_nan _ _ hs]
      exact readText_nanText
    | infinite negative =>
      rw [if_neg (by rw [isNaN_of_shape_infinite hs]; decide)]
      unfold diagnosticText Notation.shortest
      -- the text is rewritten before the pattern, which the kernel should not evaluate
      rw [withSpecials_infinite _ _ hs, eq_infinity_of_shape hs]
      exact readText_infinityText negative
    | finite negative m e =>
      rw [if_neg (by rw [isNaN_of_shape_finite hs]; decide)]
      exact readText_diagnosticText_of_finite hs
  · intro negative m e hx s D P hD
    obtain ⟨_, hr⟩ := readsBack_of_ofDecimal_eq hD hx
    by_cases hm : m = 0
    · subst hm
      unfold shortestOf
      rw [if_pos rfl]
      show decimalLength 0 ≤ _
      rw [decimalLength_of_lt (by decide)]
      exact decimalLength_pos D
    · exact shortestOf_minimal (canonical_of_shape hx) hm (narrowBelow_eq hx) hr

end Binary64

end RoundRobin
