import RoundRobin.Proofs.Pending.Restart
import RoundRobin.Proofs.Config.Validation
import Mathlib.Data.List.Forall2
import Mathlib.Data.List.Nodup

/-!
# Exports against lookups

A row's export reads every point on the same store and writes nothing; its
children are the `ds` nodes of the entries, in order, each holding the texts
of what its point shows (`PendingRow.exportTree_runOn_ok`, and conversely
`PendingRow.exportTree_runOn_of_forall₂`). JSON folds the
children into an object whose keys stay strictly sorted
(`ExportTree.SortedKeys`), so it has one member per distinct name, and of two
children with one key the later one's body is kept (`ExportTree.lookup_foldl`),
while looking a name up finds its first point.

So the JSON member of a name is the snapshot of its last point and the first
`ds` node labelled with it is that of its first point; the two meet whenever
one point holds the name, as in every row that `createAll` or `reopenAll`
makes from a validated definition (`export_matches_points`). A row made for
a repeated name shows different points in the two
(`export_keeps_last_of_repeated_name`).
-/

namespace RoundRobin

-- ---------------------------------------------------------------------------
-- Sorted members
-- ---------------------------------------------------------------------------

namespace ExportTree

def SortedKeys (ms : List (String × Json)) : Prop := ms.Pairwise fun a b => a.1 < b.1

theorem mem_keys_insertSorted {k k' : String} {v : Json} :
    ∀ {ms : List (String × Json)},
      k' ∈ (insertSorted k v ms).map Prod.fst ↔ k' = k ∨ k' ∈ ms.map Prod.fst
  | [] => by simp [insertSorted]
  | (k₀, v₀) :: rest => by
    simp only [insertSorted]
    split
    · next heq => subst heq; simp
    · split
      · simp
      · simp only [List.map_cons, List.mem_cons, @mem_keys_insertSorted k k' v rest]
        tauto

theorem lookup_cons_eq {k k' : String} {v : Json} {ms : List (String × Json)} :
    ((k, v) :: ms).lookup k' = if k' = k then some v else ms.lookup k' := by
  by_cases h : k' = k
  · subst h
    rw [List.lookup_cons_self, if_pos rfl]
  · rw [List.lookup_cons, beq_false_of_ne h, if_neg h]

theorem lookup_insertSorted (k k' : String) (v : Json) :
    ∀ ms : List (String × Json),
      (insertSorted k v ms).lookup k' = if k' = k then some v else ms.lookup k'
  | [] => by rw [insertSorted, lookup_cons_eq, List.lookup_nil]
  | (k₀, v₀) :: rest => by
    simp only [insertSorted]
    split
    · next heq =>
      subst heq
      simp only [lookup_cons_eq]
      split <;> rfl
    · split
      · simp only [lookup_cons_eq]
      · rw [lookup_cons_eq, lookup_cons_eq, lookup_insertSorted k k' v rest]
        by_cases h : k' = k
        · subst h
          simp only [if_pos, if_neg (by assumption : ¬k' = k₀)]
        · simp only [if_neg h]

theorem sortedKeys_insertSorted {k : String} {v : Json} :
    ∀ {ms : List (String × Json)}, SortedKeys ms → SortedKeys (insertSorted k v ms)
  | [], _ => List.pairwise_singleton _ _
  | (k₀, v₀) :: rest, h => by
    obtain ⟨hhead, hrest⟩ := List.pairwise_cons.mp h
    simp only [insertSorted]
    split
    · next heq =>
      subst heq
      exact List.pairwise_cons.mpr ⟨hhead, hrest⟩
    · split
      · next hlt =>
        refine List.pairwise_cons.mpr ⟨fun b hb => ?_, h⟩
        rcases List.mem_cons.mp hb with rfl | hb
        · exact hlt
        · exact String.lt_trans hlt (hhead b hb)
      · next hne hnlt =>
        -- the new key goes past the head, which is then below everything after it
        have hgt : k₀ < k := Std.lt_of_le_of_ne (String.not_lt.mp hnlt) (Ne.symm hne)
        refine List.pairwise_cons.mpr ⟨fun b hb => ?_, sortedKeys_insertSorted hrest⟩
        rcases mem_keys_insertSorted.mp (List.mem_map_of_mem (f := Prod.fst) hb) with hk | hmem
        · rw [hk]
          exact hgt
        · obtain ⟨b', hb', hkey⟩ := List.mem_map.mp hmem
          rw [← hkey]
          exact hhead b' hb'

theorem SortedKeys.nodup {ms : List (String × Json)} (h : SortedKeys ms) :
    (ms.map Prod.fst).Nodup :=
  List.pairwise_map.mpr (h.imp fun hlt => String.ne_of_lt hlt)

-- ---------------------------------------------------------------------------
-- The members of a node
-- ---------------------------------------------------------------------------

abbrev insertChild (ms : List (String × Json)) (c : ExportTree) : List (String × Json) :=
  insertSorted c.key c.body ms

theorem body_node (tag : String) (l : Option SourceName) (cs : List ExportTree) :
    (node tag l cs).body = .obj (cs.foldl insertChild []) := by
  rw [body]
  exact congrArg Json.obj (List.foldl_attach (f := insertChild))

theorem sortedKeys_foldl :
    ∀ (cs : List ExportTree) {ms : List (String × Json)}, SortedKeys ms →
      SortedKeys (cs.foldl insertChild ms)
  | [], _, h => h
  | _ :: rest, _, h => sortedKeys_foldl rest (sortedKeys_insertSorted h)

theorem mem_keys_foldl {k : String} :
    ∀ (cs : List ExportTree) (ms : List (String × Json)),
      k ∈ (cs.foldl insertChild ms).map Prod.fst ↔ k ∈ ms.map Prod.fst ∨ k ∈ cs.map key
  | [], ms => by simp
  | c :: rest, ms => by
    rw [List.foldl_cons, mem_keys_foldl rest, mem_keys_insertSorted, List.map_cons, List.mem_cons]
    tauto

theorem lookup_foldl (k : String) :
    ∀ (cs : List ExportTree) (ms : List (String × Json)),
      (cs.foldl insertChild ms).lookup k =
        ((cs.reverse.find? (·.key == k)).map body).or (ms.lookup k)
  | [], ms => by simp
  | c :: rest, ms => by
    rw [List.foldl_cons, lookup_foldl k rest, lookup_insertSorted, List.reverse_cons,
      List.find?_append, Option.map_or, Option.or_assoc]
    by_cases h : k = c.key
    · subst h
      simp
    · simp [h, Ne.symm h]

end ExportTree

-- ---------------------------------------------------------------------------
-- The export of a row
-- ---------------------------------------------------------------------------

theorem StoreM.ReadsOnly.state_eq {cells : List Nat} {x : StoreM α} (hx : StoreM.ReadsOnly cells x)
    {s s' : ByteStore} {r : Except StoreError α} (h : x.runOn s = (r, s')) : s' = s := by
  have := hx s s fun _ _ => rfl
  rw [h, Prod.mk.injEq] at this
  exact this.2

theorem List.find?_of_forall₂ {R : α → β → Prop} {p : α → Bool} {q : β → Bool}
    (hpq : ∀ a b, R a b → q b = p a) :
    ∀ {l₁ : List α} {l₂ : List β}, List.Forall₂ R l₁ l₂ → ∀ {a : α}, l₁.find? p = some a →
      ∃ b, l₂.find? q = some b ∧ R a b
  | _, _, .nil, _, h => by cases h
  | a' :: _, b' :: _, .cons hab hrest, a, h => by
    rw [List.find?_cons] at h
    rw [List.find?_cons, hpq a' b' hab]
    cases hpa : p a' with
    | false =>
      rw [hpa] at h
      exact List.find?_of_forall₂ hpq hrest h
    | true =>
      rw [hpa] at h
      cases h
      exact ⟨b', rfl, hab⟩

namespace PendingRow

/-- The child a row's export holds for an entry: the `ds` node of its name,
with the texts of the snapshot its point shows on `s`. -/
def ExportsAs (s : ByteStore) (e : SourceName × PendingPoint) (c : ExportTree) : Prop :=
  ∃ snap, e.2.snapshot.runOn s = (.ok snap, s) ∧
    c = .node "ds" (some e.1) [.text "value" none snap.value.exportText,
      .text "unknown_datapoints" none (toString snap.count)]

theorem ExportsAs.key_eq {s : ByteStore} {e : SourceName × PendingPoint} {c : ExportTree}
    (h : ExportsAs s e c) : c.key = e.1.text := by
  obtain ⟨snap, -, rfl⟩ := h
  rfl

theorem body_ds (n : SourceName) (v u : String) :
    (ExportTree.node "ds" (some n) [.text "value" none v, .text "unknown_datapoints" none u]).body =
      .obj [("unknown_datapoints", .str u), ("value", .str v)] := by
  have hne : ("unknown_datapoints" : String) ≠ "value" := by decide
  have hlt : ("unknown_datapoints" : String) < "value" := by decide
  rw [ExportTree.body_node]
  simp only [List.foldl_cons, List.foldl_nil, ExportTree.insertChild, ExportTree.key,
    ExportTree.label, ExportTree.tag, ExportTree.body, Option.map_none, Option.getD_none]
  rw [ExportTree.insertSorted, ExportTree.insertSorted, if_neg hne, if_pos hlt]

theorem mapM_exportTree_runOn {s : ByteStore} :
    ∀ {es : List (SourceName × PendingPoint)} {cs : List ExportTree} {s' : ByteStore},
      (es.mapM fun ((n, p) : SourceName × PendingPoint) => p.exportTree n).runOn s = (.ok cs, s') →
      s' = s ∧ List.Forall₂ (ExportsAs s) es cs
  | [], cs, s', h => by
    cases h
    exact ⟨rfl, .nil⟩
  | (n, p) :: rest, cs, s', h => by
    rw [List.mapM_cons] at h
    obtain ⟨c, s₁, hfirst, h⟩ := StoreM.runOn_bind_eq_ok h
    obtain ⟨cs', s₂, hrest, hpure⟩ := StoreM.runOn_bind_eq_ok h
    obtain ⟨hcs, rfl⟩ := Prod.mk.inj hpure
    cases hcs
    have hs₁ : s₁ = s := (p.exportTree_readsOnly n).state_eq hfirst
    rw [hs₁] at hfirst hrest
    obtain ⟨hs₂, hall⟩ := mapM_exportTree_runOn hrest
    obtain ⟨snap, s₃, hsnap, hnode⟩ := StoreM.runOn_bind_eq_ok hfirst
    have hs₃ : s₃ = s := p.snapshot_readsOnly.state_eq hsnap
    rw [hs₃] at hsnap hnode
    obtain ⟨hc, -⟩ := Prod.mk.inj hnode
    cases hc
    exact ⟨hs₂, .cons ⟨snap, hsnap, rfl⟩ hall⟩

theorem mapM_exportTree_runOn_of_forall₂ {s : ByteStore} :
    ∀ {es : List (SourceName × PendingPoint)} {cs : List ExportTree},
      List.Forall₂ (ExportsAs s) es cs →
      (es.mapM fun ((n, p) : SourceName × PendingPoint) => p.exportTree n).runOn s = (.ok cs, s)
  | _, _, .nil => rfl
  | (n, p) :: _, _ :: _, .cons hchild hrest => by
    obtain ⟨snap, hsnap, rfl⟩ := hchild
    have hhead : (p.exportTree n).runOn s = (.ok (.node "ds" (some n)
        [.text "value" none snap.value.exportText,
          .text "unknown_datapoints" none (toString snap.count)]), s) := by
      rw [PendingPoint.exportTree, StoreM.runOn_bind_ok hsnap]
      rfl
    rw [List.mapM_cons, StoreM.runOn_bind_ok hhead,
      StoreM.runOn_bind_ok (mapM_exportTree_runOn_of_forall₂ hrest)]
    rfl

theorem point_eq_ok {r : PendingRow} {k : String} {p : PendingPoint} (h : r.point k = .ok p) :
    ∃ n, r.entries.find? (·.1.text == k) = some (n, p) := by
  unfold point at h
  split at h
  · next n p' hfind =>
    cases h
    exact ⟨n, hfind⟩
  · cases h

theorem exportTree_runOn_ok {r : PendingRow} {s s' : ByteStore} {t : ExportTree}
    (h : r.exportTree.runOn s = (.ok t, s')) :
    s' = s ∧ ∃ cs, t = .node "cdp_prep" none cs ∧ List.Forall₂ (ExportsAs s) r.entries cs := by
  obtain ⟨cs, s₁, hmap, hpure⟩ := StoreM.runOn_bind_eq_ok h
  obtain ⟨hs₁, hall⟩ := mapM_exportTree_runOn hmap
  obtain ⟨ht, rfl⟩ := Prod.mk.inj hpure
  cases ht
  exact ⟨hs₁, cs, rfl, hall⟩

theorem exportTree_runOn_of_forall₂ {r : PendingRow} {s : ByteStore} {cs : List ExportTree}
    (h : List.Forall₂ (ExportsAs s) r.entries cs) :
    r.exportTree.runOn s = (.ok (.node "cdp_prep" none cs), s) := by
  rw [exportTree, StoreM.runOn_bind_ok (mapM_exportTree_runOn_of_forall₂ h)]
  rfl

theorem keys_eq_of_forall₂ {s : ByteStore} :
    ∀ {es : List (SourceName × PendingPoint)} {cs : List ExportTree},
      List.Forall₂ (ExportsAs s) es cs → cs.map ExportTree.key = es.map (·.1.text)
  | _, _, .nil => rfl
  | _, _, .cons h rest => by rw [List.map_cons, List.map_cons, h.key_eq, keys_eq_of_forall₂ rest]

theorem find?_child {s : ByteStore} {es : List (SourceName × PendingPoint)} {cs : List ExportTree}
    (hall : List.Forall₂ (ExportsAs s) es cs) {k : String} {e : SourceName × PendingPoint}
    (he : es.find? (·.1.text == k) = some e) :
    ∃ c, cs.find? (·.key == k) = some c ∧ ExportsAs s e c :=
  List.find?_of_forall₂ (fun _ _ h => by rw [h.key_eq]) hall he

end PendingRow

-- ---------------------------------------------------------------------------
-- Rows of a validated definition
-- ---------------------------------------------------------------------------

theorem PendingRow.names_nodup_of_validate {d : Definition} {st st' : Storage}
    {rows : List PendingRow} (hvalid : d.validate = .ok ())
    (hrun : (PendingRow.createAll d).runOn st = (.ok rows, st') ∨
      (PendingRow.reopenAll d).runOn st = (.ok rows, st'))
    {r : PendingRow} (hr : r ∈ rows) : (r.entries.map (·.1.text)).Nodup := by
  have hrows : rows = layoutRows d.header d.sources d.archives st.allocator.position := by
    rcases hrun with hrun | hrun
    · exact (PendingRow.createAll_ok hrun).1
    · exact (PendingRow.reopenAll_ok hrun).1
  rw [hrows] at hr
  have hnames : r.entries.map (·.1.text) = d.sources.map (·.text) := by
    rw [← names_of_mem_layoutRows hr, List.map_map]
    rfl
  rw [hnames]
  exact Definition.validate_names_nodup hvalid

-- ---------------------------------------------------------------------------
-- Exports against lookups
-- ---------------------------------------------------------------------------

theorem export_matches_points (r : PendingRow) (s s' : ByteStore) (t : ExportTree)
    (h : r.exportTree.runOn s = (.ok t, s')) :
    s' = s ∧ ∃ cs ms, t = .node "cdp_prep" none cs ∧ t.toJson = .obj [("cdp_prep", .obj ms)] ∧
      (ms.map Prod.fst).Nodup ∧ (∀ k, k ∈ ms.map Prod.fst ↔ k ∈ r.entries.map (·.1.text)) ∧
      ∀ (k : String) (p : PendingPoint), r.point k = .ok p →
        ∃ snap, p.snapshot.runOn s = (.ok snap, s) ∧
          (∃ n : SourceName, n.text = k ∧ cs.find? (·.key == k) = some (.node "ds" (some n)
            [.text "value" none snap.value.exportText,
              .text "unknown_datapoints" none (toString snap.count)])) ∧
          (∃ n' p' snap', r.entries.reverse.find? (·.1.text == k) = some (n', p') ∧
            p'.snapshot.runOn s = (.ok snap', s) ∧
            ms.lookup k = some (.obj [("unknown_datapoints", .str (toString snap'.count)),
              ("value", .str snap'.value.exportText)])) ∧
          (((r.entries.map (·.1.text)).Nodup ∨
              ∃ (d : Definition) (st st' : Storage) (rows : List PendingRow), d.validate = .ok () ∧
                ((PendingRow.createAll d).runOn st = (.ok rows, st') ∨
                  (PendingRow.reopenAll d).runOn st = (.ok rows, st')) ∧ r ∈ rows) →
            ms.lookup k = some (.obj [("unknown_datapoints", .str (toString snap.count)),
              ("value", .str snap.value.exportText)])) := by
  obtain ⟨rfl, cs, rfl, hall⟩ := PendingRow.exportTree_runOn_ok h
  have hsorted := ExportTree.sortedKeys_foldl cs (List.Pairwise.nil)
  refine ⟨rfl, cs, cs.foldl ExportTree.insertChild [], rfl, ?_, hsorted.nodup, fun k => ?_,
    fun k p hp => ?_⟩
  · rw [ExportTree.toJson, ExportTree.body_node]
    rfl
  · rw [ExportTree.mem_keys_foldl, PendingRow.keys_eq_of_forall₂ hall]
    simp
  · obtain ⟨n, hfind⟩ := PendingRow.point_eq_ok hp
    obtain ⟨c, hc, snap, hsnap, rfl⟩ := PendingRow.find?_child hall hfind
    have hn : n.text = k := by simpa using List.find?_some hfind
    -- the JSON member comes from the last entry named `k`
    have hmem : (n, p) ∈ r.entries := List.mem_of_find?_eq_some hfind
    obtain ⟨⟨n', p'⟩, hlast⟩ := Option.isSome_iff_exists.mp (List.find?_isSome.mpr
      ⟨(n, p), List.mem_reverse.mpr hmem, List.find?_some hfind⟩)
    obtain ⟨c', hc', snap', hsnap', rfl⟩ :=
      PendingRow.find?_child (List.forall₂_reverse_iff.mpr hall) hlast
    have hlookup : (cs.foldl ExportTree.insertChild []).lookup k =
        some (.obj [("unknown_datapoints", .str (toString snap'.count)),
          ("value", .str snap'.value.exportText)]) := by
      rw [ExportTree.lookup_foldl, hc', Option.map_some, PendingRow.body_ds]
      rfl
    refine ⟨snap, hsnap, ⟨n, hn, hc⟩, ⟨n', p', snap', hlast, hsnap', hlookup⟩, fun hunique => ?_⟩
    have hnodup : (r.entries.map (·.1.text)).Nodup := by
      rcases hunique with hnodup | ⟨d, st, st', rows, hvalid, hrun, hr⟩
      · exact hnodup
      · exact PendingRow.names_nodup_of_validate hvalid hrun hr
    have hn' : n'.text = k := by simpa using List.find?_some hlast
    have heq : (n', p') = (n, p) :=
      List.inj_on_of_nodup_map hnodup (List.mem_reverse.mp (List.mem_of_find?_eq_some hlast))
        hmem (hn'.trans hn.symm)
    obtain ⟨-, rfl⟩ := Prod.mk.inj heq
    rw [hsnap, Prod.mk.injEq, Except.ok.injEq] at hsnap'
    rw [hlookup, hsnap'.1]

/-- Two points under one name, as `create` lays them out for a repeated
name, the first with four unknown steps set and the second as seeded with
one: the name looks up the first point, while the JSON export keeps the
second. -/
theorem export_keeps_last_of_repeated_name :
    let a : SourceName := ⟨"a", by decide⟩
    let header : Header := ⟨300, 4000⟩
    let spec : ArchiveSpec := ⟨.average, ArchiveSpec.defaultXff, 6, 10⟩
    let nan := bigEndian cellSize Binary64.nan.bits.toNat
    let r : PendingRow := ⟨header, spec, [(a, .slotAt 0), (a, .slotAt 16)]⟩
    let s : ByteStore := ⟨.memory, nan ++ bigEndian cellSize 4 ++ nan ++ bigEndian cellSize 1⟩
    let ds : Nat → ExportTree := fun c => .node "ds" (some a)
      [.text "value" none Binary64.nan.exportText, .text "unknown_datapoints" none (toString c)]
    (PendingRow.create header spec [a, a]).runOn ⟨⟨.memory, []⟩, ⟨0⟩⟩ =
        (.ok r, ⟨⟨.memory, nan ++ bigEndian cellSize 1 ++ nan ++ bigEndian cellSize 1⟩, ⟨32⟩⟩) ∧
      ((PendingPoint.slotAt 0).setCount 4).runOn
          ⟨.memory, nan ++ bigEndian cellSize 1 ++ nan ++ bigEndian cellSize 1⟩ = (.ok (), s) ∧
      r.point "a" = .ok (.slotAt 0) ∧
      (PendingPoint.slotAt 0).snapshot.runOn s = (.ok ⟨Binary64.nan, 4⟩, s) ∧
      r.exportTree.runOn s = (.ok (.node "cdp_prep" none [ds 4, ds 1]), s) ∧
      (ExportTree.node "cdp_prep" none [ds 4, ds 1]).toJson =
        .obj [("cdp_prep", .obj [("a", .obj [("unknown_datapoints", .str (toString 1)),
          ("value", .str Binary64.nan.exportText)])])] := by
  refine ⟨by decide, by decide, by decide, by decide, ?_, ?_⟩
  · exact PendingRow.exportTree_runOn_of_forall₂
      (.cons ⟨⟨Binary64.nan, 4⟩, by decide, rfl⟩ (.cons ⟨⟨Binary64.nan, 1⟩, by decide, rfl⟩ .nil))
  · -- the second `ds` node replaces the first under their one key
    rw [ExportTree.toJson, ExportTree.body_node]
    simp only [List.foldl_cons, List.foldl_nil, ExportTree.insertChild, ExportTree.key,
      ExportTree.label, ExportTree.tag, Option.map_some, Option.map_none, Option.getD_some,
      Option.getD_none]
    rw [ExportTree.insertSorted, ExportTree.insertSorted, if_pos rfl, PendingRow.body_ds]

/-- A row of one data source over a store holding NaN and no unknown steps. -/
theorem export_matches_points_one_source :
    let x : SourceName := ⟨"x", by decide⟩
    let r : PendingRow := ⟨⟨300, 0⟩, ⟨.average, ArchiveSpec.defaultXff, 1, 1⟩, [(x, .slotAt 0)]⟩
    let s : ByteStore := ⟨.memory, bigEndian cellSize Binary64.nan.bits.toNat ++ bigEndian cellSize 0⟩
    let t : ExportTree := .node "cdp_prep" none [.node "ds" (some x)
      [.text "value" none Binary64.nan.exportText, .text "unknown_datapoints" none (toString 0)]]
    r.exportTree.runOn s = (.ok t, s) ∧
    (s = s ∧ ∃ cs ms, t = .node "cdp_prep" none cs ∧ t.toJson = .obj [("cdp_prep", .obj ms)] ∧
      (ms.map Prod.fst).Nodup ∧ (∀ k, k ∈ ms.map Prod.fst ↔ k ∈ r.entries.map (·.1.text)) ∧
      ∀ (k : String) (p : PendingPoint), r.point k = .ok p →
        ∃ snap, p.snapshot.runOn s = (.ok snap, s) ∧
          (∃ n : SourceName, n.text = k ∧ cs.find? (·.key == k) = some (.node "ds" (some n)
            [.text "value" none snap.value.exportText,
              .text "unknown_datapoints" none (toString snap.count)])) ∧
          (∃ n' p' snap', r.entries.reverse.find? (·.1.text == k) = some (n', p') ∧
            p'.snapshot.runOn s = (.ok snap', s) ∧
            ms.lookup k = some (.obj [("unknown_datapoints", .str (toString snap'.count)),
              ("value", .str snap'.value.exportText)])) ∧
          (((r.entries.map (·.1.text)).Nodup ∨
              ∃ (d : Definition) (st st' : Storage) (rows : List PendingRow), d.validate = .ok () ∧
                ((PendingRow.createAll d).runOn st = (.ok rows, st') ∨
                  (PendingRow.reopenAll d).runOn st = (.ok rows, st')) ∧ r ∈ rows) →
            ms.lookup k = some (.obj [("unknown_datapoints", .str (toString snap.count)),
              ("value", .str snap.value.exportText)]))) :=
  ⟨rfl, export_matches_points _ _ _ _ rfl⟩

end RoundRobin
