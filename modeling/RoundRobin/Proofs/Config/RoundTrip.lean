import RoundRobin.Proofs.Source.Names
import RoundRobin.Proofs.Config.Validation
import RoundRobin.Config.Reading
import Mathlib.Tactic.IntervalCases

/-!
# Reading a definition back from its JSON text

`Definition.toJsonText` writes a definition as pretty JSON, and the reader
takes every field back: the step, the time of the last update, the names of
the data sources and, archive by archive, the consolidation function, the
steps and the rows come back as they were (`ofJsonText_toJsonText`).

The `xff` of an archive is the exception. It is written in its shortest
decimal digits, and the reader assembles a double from them by rounding the
digits to a double and then dividing by the double nearest a power of ten.
Two roundings can miss the double the digits were written from by one unit in
the last place, so a definition reads back as itself exactly when the text of
every `xff` reads back as its own double (`toJsonText_round_trip`). The
largest double below one is written `0.9999999999999999`; its digits round to
`10 ^ 16`, so it reads back as one, which validation refuses
(`largest_xff_below_one_reads_back_as_one`).
-/

namespace RoundRobin

open Json Json.Reader

theorem Consolidation.readsValue_reader (c : Consolidation) :
    ReadsValue Consolidation.reader (textBytes (quote c.name)) c := by
  cases c <;> exact readsValue_readEnum rfl rfl rfl

theorem SourceName.itemRead_toJson (n : SourceName) : ItemRead SourceName.reader 2 n.toJson n :=
  ⟨SourceName.readsValue_reader n, startsValue_quote n.plainText⟩

namespace ArchiveSpec

theorem validate_eq_ok {a : ArchiveSpec} (h : a.validate = .ok ()) :
    a.xff.inUnitInterval = true ∧ 1 ≤ a.steps ∧ 1 ≤ a.rows := by
  unfold validate at h
  by_cases hx : a.xff.inUnitInterval = true
  · by_cases hs : a.steps < 1
    · rw [if_neg (by simp [hx]), if_pos hs] at h
      cases h
    · by_cases hr : a.rows < 1
      · rw [if_neg (by simp [hx]), if_neg hs, if_pos hr] at h
        cases h
      · exact ⟨hx, by omega, by omega⟩
  · rw [if_pos (by simpa using hx)] at h
    cases h

theorem fits_of_arcStep {a : ArchiveSpec} {step : Int} (h : (a.arcStep step).isSome)
    (hs : 1 ≤ a.steps) (hstep : 0 < step) :
    Signed64.fits a.steps = true ∧ Signed64.fits step = true := by
  have hmin : Signed64.min ≤ 1 := by decide
  unfold arcStep Signed64.checkedMul at h
  by_cases hf : Signed64.fits (a.steps * step) = true
  · simp only [Signed64.fits, Bool.and_eq_true, decide_eq_true_eq] at hf ⊢
    have h1 : a.steps ≤ a.steps * step := le_mul_of_one_le_right (by omega) (by omega)
    have h2 : step ≤ a.steps * step := le_mul_of_one_le_left (by omega) hs
    omega
  · rw [if_neg hf] at h
    cases h

theorem eq_of_fields {a a' : ArchiveSpec} (hc : a'.consolidation = a.consolidation)
    (hx : a'.xff = a.xff) (hs : a'.steps = a.steps) (hr : a'.rows = a.rows) : a = a' := by
  cases a
  cases a'
  simp_all

theorem shape_filled (c : Consolidation) (x : Binary64) (steps rows : Int) :
    ∀ k < shape.fields.length, shape.filled ⟨some c, some x, some steps, some rows⟩ k = true := by
  intro k hk
  have hk4 : k < 4 := hk
  interval_cases k <;> rfl

theorem itemRead_archiveJson {a : ArchiveSpec} (hx : a.xff.inUnitInterval = true)
    (hsteps : Signed64.fits a.steps = true) (hrows : Signed64.fits a.rows = true) :
    ∃ y, readAll readDouble (doubleText a.xff) = .ok y ∧
      ItemRead (readRecord shape) 2 (Definition.archiveJson a) { a with xff := y } := by
  obtain ⟨y, hy⟩ := readsValue_doubleText hx
  have hne : [("consol_fun", Json.str a.consolidation.name), ("xff", .double a.xff),
      ("steps", .int a.steps), ("rows", .int a.rows)] ≠ [] := List.cons_ne_nil _ _
  -- the members come in the order of the fields, each into its own slot
  have hfields : FieldsRead shape 3 [("consol_fun", Json.str a.consolidation.name),
      ("xff", .double a.xff), ("steps", .int a.steps), ("rows", .int a.rows)] shape.empty
      ⟨some a.consolidation, some y, some a.steps, some a.rows⟩ :=
    ⟨rfl, 0, _, rfl, rfl, ReadsValue.bind_pure _ (Consolidation.readsValue_reader _),
      rfl, 1, _, rfl, rfl, ReadsValue.bind_pure _ hy,
      rfl, 2, _, rfl, rfl, ReadsValue.bind_pure _ (readsValue_readInt64 hsteps),
      rfl, 3, _, rfl, rfl, ReadsValue.bind_pure _ (readsValue_readInt64 hrows), rfl⟩
  exact ⟨y, readAll_of_readsValue hy, readsValue_readRecord hne hfields (shape_filled _ _ _ _) rfl,
    startsValue_pretty_obj hne⟩

end ArchiveSpec

namespace Definition

theorem shape_filled (step lastUpdate : Int) (sources : List SourceName) (archives : List ArchiveSpec) :
    ∀ k < shape.fields.length,
      shape.filled ⟨some step, some lastUpdate, some sources, some archives⟩ k = true := by
  intro k hk
  have hk4 : k < 4 := hk
  interval_cases k <;> rfl

/-- The archives of a definition that passes validation, with row counts that
are 64-bit words, are read back one by one, each as itself with its `xff`
replaced by what the text of that double reads as. -/
theorem archives_read {step : Int} (hstep : 0 < step) {archives : List ArchiveSpec}
    (hvalid : ∀ a ∈ archives, a.validate = .ok () ∧ (a.arcStep step).isSome)
    (hrows : ∀ a ∈ archives, Signed64.fits a.rows = true) :
    ∃ archives', List.Forall₂ (fun a a' => ItemRead (readRecord ArchiveSpec.shape) 2 (archiveJson a) a' ∧
      a'.consolidation = a.consolidation ∧ readAll readDouble (doubleText a.xff) = .ok a'.xff ∧
      a'.steps = a.steps ∧ a'.rows = a.rows) archives archives' := by
  induction archives with
  | nil => exact ⟨[], .nil⟩
  | cons a rest ih =>
    obtain ⟨hv, harc⟩ := hvalid a List.mem_cons_self
    obtain ⟨hx, hs, -⟩ := ArchiveSpec.validate_eq_ok hv
    obtain ⟨y, hy, hread⟩ := ArchiveSpec.itemRead_archiveJson hx
      (ArchiveSpec.fits_of_arcStep harc hs hstep).1 (hrows a List.mem_cons_self)
    obtain ⟨rest', hrest⟩ := ih (fun b hb => hvalid b (List.mem_cons_of_mem _ hb))
      (fun b hb => hrows b (List.mem_cons_of_mem _ hb))
    exact ⟨_ :: rest', .cons ⟨hread, rfl, hy, rfl, rfl⟩ hrest⟩

theorem step_bounds_of_validate {d : Definition} (hv : d.validate = .ok ()) :
    0 < d.step ∧ Signed64.fits d.step = true := by
  obtain ⟨hheader, -, harchives, -, -⟩ := validate_eq_ok_iff.mp hv
  have hvalid := (validate_ok hv).2
  have hstep : 0 < d.step := by
    unfold Header.validate header at hheader
    dsimp only at hheader
    split at hheader
    · cases hheader
    · omega
  obtain ⟨a₀, ha₀⟩ := List.exists_mem_of_ne_nil _ harchives
  exact ⟨hstep, (ArchiveSpec.fits_of_arcStep (hvalid a₀ ha₀).2
    (ArchiveSpec.validate_eq_ok (hvalid a₀ ha₀).1).2.1 hstep).2⟩

/-- A definition that passes validation, whose time of last update and row
counts are 64-bit words, is read back from its JSON text with its step, time
of last update and data sources as they were, and archives that keep their
consolidation function, steps and rows and take as `xff` what the text of
their own `xff` reads as. -/
theorem ofJsonText_toJsonText {d : Definition} (hv : d.validate = .ok ())
    (hlast : Signed64.fits d.lastUpdate = true) (hrows : ∀ a ∈ d.archives, Signed64.fits a.rows = true) :
    ∃ archives', ofJsonText d.toJsonText = .ok { d with archives := archives' } ∧
      List.Forall₂ (fun a a' => a'.consolidation = a.consolidation ∧
        readAll readDouble (doubleText a.xff) = .ok a'.xff ∧ a'.steps = a.steps ∧ a'.rows = a.rows)
        d.archives archives' := by
  obtain ⟨-, hsources, harchives, -, -⟩ := validate_eq_ok_iff.mp hv
  have hvalid := (validate_ok hv).2
  obtain ⟨hstep, hstepFits⟩ := step_bounds_of_validate hv
  obtain ⟨archives', hall⟩ := archives_read hstep hvalid hrows
  have hnames : List.Forall₂ (ItemRead SourceName.reader 2) (d.sources.map SourceName.toJson) d.sources :=
    List.forall₂_map_left_iff.mpr (List.forall₂_same.mpr fun n _ => SourceName.itemRead_toJson n)
  have hitems : List.Forall₂ (ItemRead (readRecord ArchiveSpec.shape) 2) (d.archives.map archiveJson)
      archives' :=
    List.forall₂_map_left_iff.mpr (hall.imp fun _ _ h => h.1)
  have hne : [("step", Json.int d.step), ("last_update_time", .int d.lastUpdate),
      ("data_sources", .arr (d.sources.map SourceName.toJson)),
      ("archives", .arr (d.archives.map archiveJson))] ≠ [] := List.cons_ne_nil _ _
  have hfields : FieldsRead shape 1 [("step", Json.int d.step), ("last_update_time", .int d.lastUpdate),
      ("data_sources", .arr (d.sources.map SourceName.toJson)),
      ("archives", .arr (d.archives.map archiveJson))] shape.empty
      ⟨some d.step, some d.lastUpdate, some d.sources, some archives'⟩ :=
    ⟨rfl, 0, _, rfl, rfl, ReadsValue.bind_pure _ (readsValue_readInt64 hstepFits),
      rfl, 1, _, rfl, rfl, ReadsValue.bind_pure _ (readsValue_readInt64 hlast),
      rfl, 2, _, rfl, rfl, ReadsValue.bind_pure _
        (readsValue_readList (by simpa using hsources) hnames),
      rfl, 3, _, rfl, rfl, ReadsValue.bind_pure _
        (readsValue_readList (by simpa using harchives) hitems), rfl⟩
  exact ⟨archives', readAll_of_readsValue (readsValue_readRecord hne hfields (shape_filled _ _ _ _) rfl),
    hall.imp fun _ _ h => h.2⟩

theorem ofText_of_ofJsonText {text : String} {d : Definition} (h : ofJsonText text = .ok d) :
    ofText text = (d.validate).map fun _ => d := by
  unfold ofText
  rw [h]
  simp only [Except.mapError, bind, Except.bind]
  cases d.validate <;> rfl

theorem ofText_eq_ok_iff {text : String} {d : Definition} :
    ofText text = .ok d ↔ ofJsonText text = .ok d ∧ d.validate = .ok () := by
  cases hread : ofJsonText text with
  | error e =>
    unfold ofText
    rw [hread]
    constructor
    · intro h
      cases h
    · rintro ⟨h, -⟩
      cases h
  | ok d' =>
    rw [ofText_of_ofJsonText hread]
    cases hv : d'.validate with
    | error e =>
      constructor
      · intro h
        cases h
      · rintro ⟨h, hd⟩
        cases h
        rw [hv] at hd
        cases hd
    | ok u =>
      constructor
      · intro h
        cases h
        exact ⟨rfl, hv⟩
      · rintro ⟨h, -⟩
        cases h
        rfl

/-- A definition that passes validation, whose time of last update and row
counts are 64-bit words, is read back from its JSON text as itself in every
field but the `xff` of its archives: each archive keeps its consolidation
function, steps and rows and takes as `xff` what the text of its own `xff`
reads as. So reading with validation gives the definition back exactly when
the text of every `xff` reads back as its own double. -/
theorem toJsonText_round_trip (d : Definition) (hv : d.validate = .ok ())
    (hlast : Signed64.fits d.lastUpdate = true) (hrows : ∀ a ∈ d.archives, Signed64.fits a.rows = true) :
    (∃ archives', ofJsonText d.toJsonText = .ok { d with archives := archives' } ∧
      List.Forall₂ (fun a a' => a'.consolidation = a.consolidation ∧
        readAll readDouble (doubleText a.xff) = .ok a'.xff ∧ a'.steps = a.steps ∧ a'.rows = a.rows)
        d.archives archives') ∧
    (ofText d.toJsonText = .ok d ↔
      ∀ a ∈ d.archives, readAll readDouble (doubleText a.xff) = .ok a.xff) := by
  obtain ⟨archives', hread, hall⟩ := ofJsonText_toJsonText hv hlast hrows
  refine ⟨⟨archives', hread, hall⟩, ?_⟩
  rw [ofText_eq_ok_iff, hread]
  constructor
  · rintro ⟨heq, -⟩
    have harch : archives' = d.archives := congrArg Definition.archives (Except.ok.inj heq)
    rw [harch, List.forall₂_same] at hall
    exact fun a ha => (hall a ha).2.1
  · intro hself
    -- an archive whose `xff` text reads back as its own double is read back as itself
    have hsame : List.Forall₂ (· = ·) d.archives archives' := by
      refine ((List.forall₂_and_left _ _).mpr ⟨hself, hall⟩).imp ?_
      rintro a a' ⟨hx, hc, hx', hs, hr⟩
      exact ArchiveSpec.eq_of_fields hc (Except.ok.inj (hx'.symm.trans hx)) hs hr
    rw [List.forall₂_eq_eq_eq] at hsame
    rw [← hsame]
    exact ⟨rfl, hv⟩

def twoArchives : Definition :=
  ⟨300, 1700000000, [⟨"in", by decide⟩, ⟨"out", by decide⟩],
    [⟨.average, ⟨0x3FE0000000000000⟩, 1, 600⟩, ⟨.max, ⟨0x3FE0000000000000⟩, 6, 700⟩]⟩

theorem toJsonText_round_trip_two_archives :
    twoArchives.validate = .ok () ∧ Signed64.fits twoArchives.lastUpdate = true ∧
    (∀ a ∈ twoArchives.archives, Signed64.fits a.rows = true) ∧
    ((∃ archives', ofJsonText twoArchives.toJsonText = .ok { twoArchives with archives := archives' } ∧
      List.Forall₂ (fun a a' => a'.consolidation = a.consolidation ∧
        readAll readDouble (doubleText a.xff) = .ok a'.xff ∧ a'.steps = a.steps ∧ a'.rows = a.rows)
        twoArchives.archives archives') ∧
    (ofText twoArchives.toJsonText = .ok twoArchives ↔
      ∀ a ∈ twoArchives.archives, readAll readDouble (doubleText a.xff) = .ok a.xff)) := by
  have hv : twoArchives.validate = .ok () := by decide
  have hlast : Signed64.fits twoArchives.lastUpdate = true := by decide
  have hrows : ∀ a ∈ twoArchives.archives, Signed64.fits a.rows = true := by decide
  exact ⟨hv, hlast, hrows, toJsonText_round_trip twoArchives hv hlast hrows⟩

/-- The largest double below one is written `0.9999999999999999`. Those digits
are rounded to the double `10 ^ 16` before the division by `10 ^ 16`, so a
definition with that `xff`, which passes validation, reads back with `xff`
one, which validation refuses. -/
theorem largest_xff_below_one_reads_back_as_one :
    validate ⟨300, 0, [⟨"a", by decide⟩], [⟨.average, ⟨0x3FEFFFFFFFFFFFFF⟩, 1, 1⟩]⟩ = .ok () ∧
    ofText (toJsonText ⟨300, 0, [⟨"a", by decide⟩], [⟨.average, ⟨0x3FEFFFFFFFFFFFFF⟩, 1, 1⟩]⟩) =
      .error (.invalidValue "archives[0].xff" "Must be in [0, 1), got 1") := by
  have hv : validate ⟨300, 0, [⟨"a", by decide⟩], [⟨.average, ⟨0x3FEFFFFFFFFFFFFF⟩, 1, 1⟩]⟩ = .ok () := by
    decide
  refine ⟨hv, ?_⟩
  obtain ⟨archives', hread, hall⟩ := ofJsonText_toJsonText hv rfl (by decide)
  obtain ⟨a', rest, ⟨hc, hx, hs, hr⟩, hrest, rfl⟩ := List.forall₂_cons_left_iff.mp hall
  have hone : (readAll readDouble (doubleText ⟨0x3FEFFFFFFFFFFFFF⟩)).toOption =
      some ⟨0x3FF0000000000000⟩ := by
    with_unfolding_all decide
  rw [hx] at hone
  have ha' : ⟨.average, ⟨0x3FF0000000000000⟩, 1, 1⟩ = a' :=
    ArchiveSpec.eq_of_fields hc (Option.some.inj hone) hs hr
  rw [List.forall₂_nil_left_iff.mp hrest, ← ha'] at hread
  rw [ofText_of_ofJsonText hread]
  with_unfolding_all decide

end Definition

end RoundRobin
