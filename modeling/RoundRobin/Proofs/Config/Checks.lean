import RoundRobin.Config.Definition
import RoundRobin.Proofs.Number.Value
import Mathlib.Data.List.Nodup

/-!
# The order of a definition's checks

`Definition.checks` lists every check that validation makes, in the order it
makes them, each with the refusal it gives when it fails: the step, the data
sources and the archives being present, one check per data source that its
name did not occur before it, and five per archive `i`: `xff` in `[0, 1)`,
`steps` and `rows` at least one, the row length `steps * step` within 64
bits, and a consolidation function and step count that no earlier archive
has. The refusals of an archive name their field under `archives[i]`.

Main statement, `validate_refuses_first_failing`: a definition is accepted
exactly when it is `Definition.Valid`, and otherwise refused with the refusal
of the first check that fails.
-/

namespace RoundRobin

/-- A check: whether it passes, and the refusal when it does not. -/
structure Check where
  passes : Bool
  refusal : ConfigError

namespace Check

def firstRefusal (cs : List Check) : Option ConfigError :=
  (cs.find? (!·.passes)).map (·.refusal)

def run (cs : List Check) : Except ConfigError Unit :=
  match firstRefusal cs with
  | none => .ok ()
  | some e => .error e

@[simp] theorem run_nil : run [] = .ok () := rfl

theorem run_cons (c : Check) (cs : List Check) :
    run (c :: cs) = if c.passes then run cs else .error c.refusal := by
  cases h : c.passes <;> simp [run, firstRefusal, h]

theorem run_append (cs ds : List Check) :
    run (cs ++ ds) = (do run cs; run ds) := by
  induction cs with
  | nil => rfl
  | cons c cs ih =>
    rw [List.cons_append, run_cons, run_cons, ih]
    cases c.passes <;> rfl

theorem run_eq_ok_iff {cs : List Check} : run cs = .ok () ↔ ∀ c ∈ cs, c.passes = true := by
  induction cs with
  | nil => simp
  | cons c cs ih =>
    rw [run_cons, List.forall_mem_cons, ← ih]
    cases c.passes <;> simp

theorem run_eq_error_iff {cs : List Check} {e : ConfigError} :
    run cs = .error e ↔ firstRefusal cs = some e := by
  unfold run
  cases firstRefusal cs <;> simp

end Check

namespace Definition

def nameChecks : List String → List String → List Check
  | _, [] => []
  | earlier, n :: rest =>
    ⟨!earlier.contains n, .duplicate "data source" n⟩ :: nameChecks (earlier ++ [n]) rest

end Definition

namespace ArchiveSpec

def key (a : ArchiveSpec) : Consolidation × Int := (a.consolidation, a.steps)

/-- The five checks of archive `a` after the archives `earlier`; its index
is the number of those. -/
def checks (step : Int) (earlier : List ArchiveSpec) (a : ArchiveSpec) : List Check :=
  let i := earlier.length
  [⟨a.xff.inUnitInterval,
      .invalidValue s!"archives[{i}].xff" ("Must be in [0, 1), got " ++ Notation.plain.shortest a.xff)⟩,
    ⟨decide (1 ≤ a.steps), .invalidValue s!"archives[{i}].steps" s!"Must be at least 1, got {a.steps}"⟩,
    ⟨decide (1 ≤ a.rows), .invalidValue s!"archives[{i}].rows" s!"Must be at least 1, got {a.rows}"⟩,
    ⟨(a.arcStep step).isSome,
      .invalidValue s!"archives[{i}].steps" s!"{a.steps} steps of {step}s overflow the archive step"⟩,
    ⟨!(earlier.map key).contains a.key, .duplicate "archive" s!"{a.consolidation.name}:{a.steps}"⟩]

structure Valid (a : ArchiveSpec) (step : Int) : Prop where
  xff_mem : ∃ v, a.xff.value? = some v ∧ 0 ≤ v ∧ v < 1
  steps_pos : 1 ≤ a.steps
  rows_pos : 1 ≤ a.rows
  arcStep_fits : Signed64.min ≤ a.steps * step ∧ a.steps * step ≤ Signed64.max

end ArchiveSpec

namespace Definition

def archiveChecks (step : Int) : List ArchiveSpec → List ArchiveSpec → List Check
  | _, [] => []
  | earlier, a :: rest => a.checks step earlier ++ archiveChecks step (earlier ++ [a]) rest

def checks (d : Definition) : List Check :=
  [⟨decide (0 < d.step), .invalidValue "step" s!"Must be positive, got {d.step}"⟩,
    ⟨!d.sources.isEmpty, .missingField "data_sources"⟩,
    ⟨!d.archives.isEmpty, .missingField "archives"⟩] ++
  nameChecks [] (d.sources.map (·.text)) ++ archiveChecks d.step [] d.archives

/-- A valid definition: a positive step, data sources with distinct names,
and archives, each valid, no two with the same consolidation function and
step count. -/
structure Valid (d : Definition) : Prop where
  step_pos : 0 < d.step
  sources_ne_nil : d.sources ≠ []
  archives_ne_nil : d.archives ≠ []
  names_nodup : (d.sources.map (·.text)).Nodup
  archives_valid : ∀ a ∈ d.archives, a.Valid d.step
  keys_nodup : (d.archives.map (·.key)).Nodup

/-! ## Validation makes the checks in order -/

theorem header_validate_eq (d : Definition) :
    d.header.validate = Check.run [⟨decide (0 < d.step), .invalidValue "step" s!"Must be positive, got {d.step}"⟩] := by
  unfold Header.validate header
  by_cases h : d.step ≤ 0
  · simp [Check.run_cons, h]
  · simp [Check.run_cons, h, show 0 < d.step by omega]

theorem run_nameChecks (earlier names : List String) :
    Check.run (nameChecks earlier names) =
      match firstRepeat earlier.reverse names with
      | some n => .error (.duplicate "data source" n)
      | none => .ok () := by
  induction names generalizing earlier with
  | nil => rfl
  | cons n rest ih =>
    rw [nameChecks, Check.run_cons, firstRepeat, ih]
    -- the code keeps the names seen so far newest first
    simp only [List.contains_reverse, List.reverse_append, List.reverse_cons, List.reverse_nil,
      List.nil_append, List.singleton_append]
    cases earlier.contains n <;> rfl

theorem validate_mapError_eq (a : ArchiveSpec) (step : Int) (earlier : List ArchiveSpec) :
    a.validate.mapError (ConfigError.underArchive earlier.length) =
      Check.run ((a.checks step earlier).take 3) := by
  unfold ArchiveSpec.validate
  simp only [ArchiveSpec.checks, List.take_succ_cons, List.take_zero, Check.run_cons, Check.run_nil]
  by_cases hx : a.xff.inUnitInterval = true
  · by_cases hs : a.steps < 1
    · simp only [hx, hs, Bool.not_true, decide_false, if_true, if_false, Bool.false_eq_true,
        show ¬ 1 ≤ a.steps by omega]
      show Except.error (ConfigError.invalidValue _ _) = _
      congr 2
      simp only [String.append_assoc]
      rfl
    · by_cases hr : a.rows < 1
      · simp only [hx, hs, hr, Bool.not_true, decide_false, if_true, if_false, Bool.false_eq_true,
          show 1 ≤ a.steps by omega, show ¬ 1 ≤ a.rows by omega, decide_true]
        show Except.error (ConfigError.invalidValue _ _) = _
        congr 2
        simp only [String.append_assoc]
        rfl
      · simp only [hx, hs, hr, Bool.not_true, if_true, if_false, Bool.false_eq_true,
          show 1 ≤ a.steps by omega, show 1 ≤ a.rows by omega, decide_true]
        rfl
  · simp only [hx, Bool.not_false, if_true, if_false, Bool.false_eq_true]
    show Except.error (ConfigError.invalidValue _ _) = _
    congr 2
    simp only [String.append_assoc]
    rfl

theorem run_archiveChecks (step : Int) (earlier specs : List ArchiveSpec) :
    Check.run (archiveChecks step earlier specs) =
      validateArchives step earlier.length (earlier.map ArchiveSpec.key).reverse specs := by
  induction specs generalizing earlier with
  | nil => rfl
  | cons a rest ih =>
    rw [archiveChecks, Check.run_append, ih, ← List.take_append_drop 3 (a.checks step earlier),
      Check.run_append, ← validate_mapError_eq, validateArchives]
    simp only [List.length_append, List.length_singleton, List.map_append, List.map_singleton,
      List.reverse_append, List.reverse_singleton, List.singleton_append]
    cases a.validate.mapError (ConfigError.underArchive earlier.length) with
    | error e => rfl
    | ok u =>
      have hseen : (earlier.map ArchiveSpec.key).reverse.contains (a.consolidation, a.steps) =
          (earlier.map ArchiveSpec.key).contains a.key := List.contains_reverse
      simp only [ArchiveSpec.checks, List.drop_succ_cons, List.drop_zero, Check.run_cons,
        Check.run_nil, hseen]
      cases a.arcStep step <;> cases (earlier.map ArchiveSpec.key).contains a.key <;> rfl

theorem validate_eq_run (d : Definition) : d.validate = Check.run d.checks := by
  unfold validate checks
  rw [Check.run_append, Check.run_append, run_archiveChecks, run_nameChecks, header_validate_eq]
  simp only [List.length_nil, List.map_nil, List.reverse_nil]
  by_cases hs : 0 < d.step
  · simp only [Check.run_cons, Check.run_nil, hs, decide_true, if_true]
    cases hsrc : d.sources.isEmpty
    · cases harc : d.archives.isEmpty
      · cases firstRepeat [] (d.sources.map (·.text)) <;> rfl
      · rfl
    · rfl
  · simp only [Check.run_cons, hs, decide_false, Bool.false_eq_true, if_false]
    rfl

/-! ## The checks pass exactly on valid definitions -/

theorem nameChecks_pass_iff (earlier names : List String) :
    (∀ c ∈ nameChecks earlier names, c.passes = true) ↔ names.Nodup ∧ ∀ n ∈ names, n ∉ earlier := by
  induction names generalizing earlier with
  | nil => simp [nameChecks]
  | cons n rest ih =>
    simp only [nameChecks, List.forall_mem_cons, ih, List.contains_eq_mem, Bool.not_eq_eq_eq_not,
      Bool.not_true, decide_eq_false_iff_not, List.nodup_cons, List.mem_append,
      List.mem_singleton, not_or]
    constructor
    · rintro ⟨hn, hnd, hrest⟩
      exact ⟨⟨fun h => (hrest n h).2 rfl, hnd⟩, hn, fun m hm => (hrest m hm).1⟩
    · rintro ⟨⟨hn, hnd⟩, hne, hrest⟩
      exact ⟨hne, hnd, fun m hm => ⟨hrest m hm, fun h => hn (h ▸ hm)⟩⟩

theorem arcStep_isSome_iff (a : ArchiveSpec) (step : Int) :
    (a.arcStep step).isSome = true ↔ Signed64.min ≤ a.steps * step ∧ a.steps * step ≤ Signed64.max := by
  unfold ArchiveSpec.arcStep Signed64.checkedMul Signed64.fits
  by_cases h : Signed64.min ≤ a.steps * step ∧ a.steps * step ≤ Signed64.max <;> simp [h]

theorem checks_pass_iff_valid (a : ArchiveSpec) (step : Int) (earlier : List ArchiveSpec) :
    (∀ c ∈ a.checks step earlier, c.passes = true) ↔
      a.Valid step ∧ a.key ∉ earlier.map ArchiveSpec.key := by
  simp only [ArchiveSpec.checks, List.forall_mem_cons, List.not_mem_nil, IsEmpty.forall_iff,
    implies_true, and_true, Binary64.inUnitInterval_iff, decide_eq_true_eq, arcStep_isSome_iff,
    List.contains_eq_mem, Bool.not_eq_eq_eq_not, Bool.not_true, decide_eq_false_iff_not]
  constructor
  · rintro ⟨hx, hs, hr, hfit, hkey⟩
    exact ⟨⟨hx, hs, hr, hfit⟩, hkey⟩
  · rintro ⟨⟨hx, hs, hr, hfit⟩, hkey⟩
    exact ⟨hx, hs, hr, hfit, hkey⟩

theorem archiveChecks_pass_iff (step : Int) (earlier specs : List ArchiveSpec) :
    (∀ c ∈ archiveChecks step earlier specs, c.passes = true) ↔
      (∀ a ∈ specs, a.Valid step) ∧ (specs.map ArchiveSpec.key).Nodup ∧
        ∀ a ∈ specs, a.key ∉ earlier.map ArchiveSpec.key := by
  induction specs generalizing earlier with
  | nil => simp [archiveChecks]
  | cons a rest ih =>
    rw [archiveChecks, List.forall_mem_append, checks_pass_iff_valid, ih]
    simp only [List.forall_mem_cons, List.map_cons, List.nodup_cons, List.map_append,
      List.map_nil, List.mem_append, List.mem_singleton, not_or, List.mem_map]
    constructor
    · rintro ⟨⟨ha, hkey⟩, hrest, hnd, hfresh⟩
      refine ⟨⟨ha, hrest⟩, ⟨?_, hnd⟩, hkey, fun b hb => (hfresh b hb).1⟩
      rintro ⟨b, hb, hba⟩
      exact (hfresh b hb).2 hba
    · rintro ⟨⟨ha, hrest⟩, ⟨hnew, hnd⟩, hkey, hfresh⟩
      exact ⟨⟨ha, hkey⟩, hrest, hnd, fun b hb => ⟨hfresh b hb, fun h => hnew ⟨b, hb, h⟩⟩⟩

theorem checks_pass_iff (d : Definition) : (∀ c ∈ d.checks, c.passes = true) ↔ d.Valid := by
  simp only [checks, List.forall_mem_append, List.forall_mem_cons, List.not_mem_nil,
    false_implies, forall_const, and_true, decide_eq_true_eq, Bool.not_eq_true',
    List.isEmpty_eq_false_iff, nameChecks_pass_iff, archiveChecks_pass_iff, not_false_eq_true,
    implies_true, List.map_nil]
  constructor
  · rintro ⟨⟨⟨hs, hsrc, harc⟩, hnames⟩, hvalid, hkeys⟩
    exact ⟨hs, hsrc, harc, hnames, hvalid, hkeys⟩
  · rintro ⟨hs, hsrc, harc, hnames, hvalid, hkeys⟩
    exact ⟨⟨⟨hs, hsrc, harc⟩, hnames⟩, hvalid, hkeys⟩

/-- A definition is accepted exactly when it is valid; a refused one gets
the refusal of the first check that fails, in the order: step, data
sources, archives, repeated names, then archive by archive its `xff`,
`steps`, `rows`, row length and repeated pair. -/
theorem validate_refuses_first_failing (d : Definition) :
    (d.validate = .ok () ↔ d.Valid) ∧
      ∀ e, d.validate = .error e ↔ Check.firstRefusal d.checks = some e := by
  rw [validate_eq_run]
  exact ⟨Check.run_eq_ok_iff.trans (checks_pass_iff d), fun _ => Check.run_eq_error_iff⟩

end Definition

end RoundRobin
