import RoundRobin.Config.Definition

/-!
# Definitions that pass their checks

`Definition.validate` accepts a definition exactly when its header is valid,
it has data sources and archives, no data-source name occurs twice, and its
archives pass their checks in order (`validate_eq_ok_iff`). So a validated
definition names each data source once (`validate_names_nodup`), and each of
its archives is valid with a row length that fits in 64 bits (`validate_ok`).
-/

namespace RoundRobin

namespace Definition

theorem validate_eq_ok_iff {d : Definition} :
    d.validate = .ok () ↔ d.header.validate = .ok () ∧ d.sources ≠ [] ∧ d.archives ≠ [] ∧
      firstRepeat [] (d.sources.map (·.text)) = none ∧
      validateArchives d.step 0 [] d.archives = .ok () := by
  unfold validate
  -- the checks in their order: header, data sources, archives, repeated names
  cases hh : d.header.validate with
  | error ce => simp [bind, Except.bind]
  | ok u =>
    by_cases hs : d.sources = []
    · simp [bind, Except.bind, hs, throw, throwThe, MonadExceptOf.throw]
    by_cases ha : d.archives = []
    · simp [bind, Except.bind, hs, ha, throw, throwThe, MonadExceptOf.throw]
    cases firstRepeat [] (d.sources.map (·.text)) with
    | some n => simp [bind, Except.bind, hs, ha, throw, throwThe, MonadExceptOf.throw]
    | none => simp [bind, Except.bind, hs, ha]

theorem firstRepeat_eq_none :
    ∀ {seen xs : List String}, firstRepeat seen xs = none → xs.Nodup ∧ ∀ x ∈ xs, x ∉ seen
  | _, [], _ => ⟨.nil, by simp⟩
  | seen, x :: rest, h => by
    unfold firstRepeat at h
    split at h
    · cases h
    · next hx =>
      obtain ⟨hnd, hnot⟩ := firstRepeat_eq_none h
      refine ⟨List.nodup_cons.mpr ⟨fun hm => hnot x hm List.mem_cons_self, hnd⟩, ?_⟩
      intro y hy
      rcases List.mem_cons.mp hy with rfl | hy
      · simpa using hx
      · exact fun hs => hnot y hy (List.mem_cons_of_mem _ hs)

theorem validateArchives_ok {step : Int} :
    ∀ {i : Nat} {seen : List (Consolidation × Int)} {specs : List ArchiveSpec},
      validateArchives step i seen specs = .ok () →
      ∀ a ∈ specs, a.validate = .ok () ∧ (a.arcStep step).isSome
  | _, _, [], _ => by simp
  | i, seen, a :: rest, h => by
    rw [validateArchives] at h
    cases hv : a.validate with
    | error ce =>
      rw [hv] at h
      cases h
    | ok u =>
      cases ha : a.arcStep step with
      | none =>
        rw [hv, ha] at h
        cases h
      | some arc =>
        intro b hb
        rcases List.mem_cons.mp hb with rfl | hb
        · exact ⟨hv, by rw [ha]; rfl⟩
        · rw [hv, ha] at h
          split at h
          · cases h
          · exact validateArchives_ok h b hb

/-- A definition that passes its checks has a valid header and archives
that are valid with row lengths that fit in 64 bits. -/
theorem validate_ok {d : Definition} (h : d.validate = .ok ()) :
    d.header.validate = .ok () ∧ ∀ a ∈ d.archives, a.validate = .ok () ∧ (a.arcStep d.step).isSome := by
  obtain ⟨hheader, -, -, -, harchives⟩ := validate_eq_ok_iff.mp h
  exact ⟨hheader, validateArchives_ok harchives⟩

theorem validate_names_nodup {d : Definition} (h : d.validate = .ok ()) :
    (d.sources.map (·.text)).Nodup :=
  (firstRepeat_eq_none (validate_eq_ok_iff.mp h).2.2.2.1).1

end Definition

end RoundRobin
