import RoundRobin.Export.Tree
import RoundRobin.Proofs.Source.Names

/-!
# The XML of an export is unambiguous

An escaped text holds no `<` and no `>`, and the escaping of `&`, `<` and
`>` can be undone character by character, so it is injective
(`escape_injective`).

The XML of a tree whose tags are non-empty and of name characters and whose
texts hold no line feed (`Printable`) determines the tree, and even the XML
of a tree followed by anything determines the tree and what follows
(`decodes`). The opening `<tag>` ends at the first `>`. An unlabelled text
follows it on the same line, the others start a new line. A label comment
starts with `<!`, which no line of a child starts with; a text line starts
with two spaces and then no `<`, a child line with two spaces and `<`, and the
closing line with `</`. So `toXml_injective` holds by induction over the tree.
-/

namespace RoundRobin

theorem append_cons_cancel {α : Type} {x : α} {a a' r r' : List α} (ha : x ∉ a) (ha' : x ∉ a')
    (h : a ++ x :: r = a' ++ x :: r') : a = a' ∧ r = r' := by
  induction a generalizing a' with
  | nil =>
    cases a' with
    | nil => exact ⟨rfl, (List.cons.inj h).2⟩
    | cons y a' =>
      obtain ⟨rfl, -⟩ := List.cons.inj h
      exact absurd List.mem_cons_self ha'
  | cons y a ih =>
    cases a' with
    | nil =>
      obtain ⟨rfl, -⟩ := List.cons.inj h
      exact absurd List.mem_cons_self ha
    | cons y' a' =>
      obtain ⟨rfl, hrest⟩ := List.cons.inj h
      obtain ⟨rfl, rfl⟩ := ih (fun hx => ha (List.mem_cons_of_mem _ hx))
        (fun hx => ha' (List.mem_cons_of_mem _ hx)) hrest
      exact ⟨rfl, rfl⟩

theorem NameChar.ne {c : Char} (h : NameChar c) : c ≠ '>' ∧ c ≠ ' ' ∧ c ≠ '!' ∧ c ≠ '/' := by
  rw [nameChar_iff_val] at h
  simp only [ne_eq, char_eq_iff_val c, Char.reduceVal, UInt32.reduceToNat]
  omega

namespace ExportTree

-- ---------------------------------------------------------------------------
-- Escaping
-- ---------------------------------------------------------------------------

/-- How a character of a text is written: `&`, `<` and `>` as entities, any
other character as itself. -/
def entity (c : Char) : List Char :=
  if c = '&' then ['&', 'a', 'm', 'p', ';']
  else if c = '<' then ['&', 'l', 't', ';']
  else if c = '>' then ['&', 'g', 't', ';']
  else [c]

def readEntity : List Char → Option (Char × List Char)
  | '&' :: 'a' :: 'm' :: 'p' :: ';' :: rest => some ('&', rest)
  | '&' :: 'l' :: 't' :: ';' :: rest => some ('<', rest)
  | '&' :: 'g' :: 't' :: ';' :: rest => some ('>', rest)
  | c :: rest => some (c, rest)
  | [] => none

theorem toList_escape (s : String) : (escape s).toList = s.toList.flatMap entity := by
  rw [escape, String.toList_join, List.flatMap_map]
  congr 1
  funext c
  unfold entity
  split_ifs
  · rfl
  · rfl
  · rfl
  · exact String.toList_singleton c

theorem readEntity_entity (c : Char) (u : List Char) : readEntity (entity c ++ u) = some (c, u) := by
  unfold entity
  split_ifs with h1 h2 h3
  · subst h1
    rfl
  · subst h2
    rfl
  · subst h3
    rfl
  · simp [readEntity, h1]

theorem entity_append_inj {a b : Char} {u v : List Char} (h : entity a ++ u = entity b ++ v) :
    a = b ∧ u = v := by
  have h' := congrArg readEntity h
  rw [readEntity_entity, readEntity_entity, Option.some.injEq, Prod.mk.injEq] at h'
  exact h'

theorem lt_not_mem_entity (c : Char) : '<' ∉ entity c := by
  unfold entity
  split_ifs with h1 h2 h3
  · decide
  · decide
  · decide
  · exact fun h => h2 (List.mem_singleton.mp h).symm

theorem newline_not_mem_entity {c : Char} (hc : c ≠ '\n') : '\n' ∉ entity c := by
  unfold entity
  split_ifs with h1 h2 h3
  · decide
  · decide
  · decide
  · exact fun h => hc (List.mem_singleton.mp h).symm

theorem entity_ne_nil (c : Char) : entity c ≠ [] := by
  unfold entity
  split_ifs <;> simp

theorem flatMap_entity_inj : ∀ {xs ys : List Char},
    xs.flatMap entity = ys.flatMap entity → xs = ys
  | [], [], _ => rfl
  | [], y :: ys, h => by
    rw [List.flatMap_nil, List.flatMap_cons] at h
    exact absurd (List.append_eq_nil_iff.mp h.symm).1 (entity_ne_nil y)
  | x :: xs, [], h => by
    rw [List.flatMap_nil, List.flatMap_cons] at h
    exact absurd (List.append_eq_nil_iff.mp h).1 (entity_ne_nil x)
  | x :: xs, y :: ys, h => by
    rw [List.flatMap_cons, List.flatMap_cons] at h
    obtain ⟨rfl, hrest⟩ := entity_append_inj h
    rw [flatMap_entity_inj hrest]

theorem escape_injective : Function.Injective escape := by
  intro s t h
  have h' := congrArg String.toList h
  rw [toList_escape, toList_escape] at h'
  exact String.toList_inj.mp (flatMap_entity_inj h')

theorem escape_append (s t : String) : escape (s ++ t) = escape s ++ escape t := by
  apply String.toList_inj.mp
  rw [String.toList_append, toList_escape, toList_escape, toList_escape, String.toList_append,
    List.flatMap_append]

theorem escape_singleton {c : Char} (h1 : c ≠ '&') (h2 : c ≠ '<') (h3 : c ≠ '>') :
    escape (String.singleton c) = String.singleton c := by
  apply String.toList_inj.mp
  rw [toList_escape, String.toList_singleton, List.flatMap_singleton]
  unfold entity
  rw [if_neg h1, if_neg h2, if_neg h3]

theorem lt_not_mem_escape (s : String) : '<' ∉ (escape s).toList := by
  rw [toList_escape, List.mem_flatMap]
  rintro ⟨c, -, hmem⟩
  exact lt_not_mem_entity c hmem

theorem newline_not_mem_escape {s : String} (h : '\n' ∉ s.toList) : '\n' ∉ (escape s).toList := by
  rw [toList_escape, List.mem_flatMap]
  rintro ⟨c, hc, hmem⟩
  exact newline_not_mem_entity (fun hc' => h (hc' ▸ hc)) hmem

-- ---------------------------------------------------------------------------
-- The layout, character by character
-- ---------------------------------------------------------------------------

def closeChars (depth : Nat) (tag : String) : List Char :=
  (pad depth).toList ++ '<' :: '/' :: (tag.toList ++ ['>', '\n'])

/-- What stands between the label line and the closing line of a node that
takes more than one line: its text on a line of its own, or its children. -/
def middleChars (depth : Nat) : ExportTree → List Char
  | .text _ _ content => (pad depth).toList ++ ' ' :: ' ' :: ((escape content).toList ++ ['\n'])
  | .node _ _ children => (children.map (xmlAt (depth + 1))).flatMap String.toList

def afterOpen (depth : Nat) : ExportTree → List Char
  | .text tag none content => (escape content).toList ++ '<' :: '/' :: (tag.toList ++ ['>', '\n'])
  | n => '\n' :: ((labelLine depth n.label).toList ++ middleChars depth n ++ closeChars depth n.tag)

theorem toList_xmlAt (depth : Nat) (n : ExportTree) :
    (xmlAt depth n).toList = (pad depth).toList ++ '<' :: (n.tag.toList ++ '>' :: afterOpen depth n) := by
  cases n with
  | text tag label content =>
    cases label with
    | none => simp [xmlAt, afterOpen, ExportTree.tag]
    | some l => simp [xmlAt, afterOpen, middleChars, closeChars, ExportTree.tag, ExportTree.label]
  | node tag label children =>
    simp [xmlAt, afterOpen, middleChars, closeChars, ExportTree.tag, ExportTree.label,
      String.toList_join]

theorem afterOpen_cases (depth : Nat) (n : ExportTree) :
    (∃ tag content, n = .text tag none content) ∨
    afterOpen depth n =
      '\n' :: ((labelLine depth n.label).toList ++ middleChars depth n ++ closeChars depth n.tag) := by
  cases n with
  | text tag label content =>
    cases label with
    | none => exact .inl ⟨tag, content, rfl⟩
    | some l => exact .inr rfl
  | node tag label children => exact .inr rfl

theorem toList_pad (d : Nat) : (pad d).toList = List.replicate (2 * d) ' ' := String.toList_ofList

theorem toList_pad_succ (d : Nat) : (pad (d + 1)).toList = (pad d).toList ++ [' ', ' '] := by
  rw [toList_pad, toList_pad, Nat.mul_succ, List.replicate_add]
  rfl

theorem toList_labelLine_none (d : Nat) : (labelLine d none).toList = [] := rfl

theorem toList_labelLine_some (d : Nat) (l : SourceName) :
    (labelLine d (some l)).toList = (pad d).toList ++ ' ' :: ' ' :: '<' :: '!' :: '-' :: '-' :: ' ' ::
      (l.text.toList ++ [' ', '-', '-', '>', '\n']) := by
  simp [labelLine]

theorem toList_xmlAt_succ (d : Nat) (n : ExportTree) :
    (xmlAt (d + 1) n).toList =
      (pad d).toList ++ ' ' :: ' ' :: '<' :: (n.tag.toList ++ '>' :: afterOpen (d + 1) n) := by
  rw [toList_xmlAt, toList_pad_succ, List.append_assoc]
  rfl

-- ---------------------------------------------------------------------------
-- Printable trees
-- ---------------------------------------------------------------------------

def children : ExportTree → List ExportTree
  | .text .. => []
  | .node _ _ cs => cs

def IsTag (tag : String) : Prop := tag ≠ "" ∧ ∀ c ∈ tag.toList, NameChar c

/-- Trees whose XML can be read back: every tag is non-empty and of name
characters, and no text holds a line feed. -/
inductive Printable : ExportTree → Prop
  | text {tag : String} {label : Option SourceName} {content : String} :
    IsTag tag → '\n' ∉ content.toList → Printable (.text tag label content)
  | node {tag : String} {label : Option SourceName} {children : List ExportTree} :
    IsTag tag → (∀ c ∈ children, Printable c) → Printable (.node tag label children)

theorem Printable.isTag {n : ExportTree} (h : Printable n) : IsTag n.tag := by
  cases h with
  | text htag _ => exact htag
  | node htag _ => exact htag

theorem gt_not_mem_tag {tag : String} (h : IsTag tag) : '>' ∉ tag.toList :=
  fun hm => (h.2 _ hm).ne.1 rfl

theorem space_not_mem_name (l : SourceName) : ' ' ∉ l.text.toList :=
  fun hm => (((isValidName_iff l.text).mp l.valid).2.2 _ hm).ne.2.1 rfl

theorem SourceName.eq_of_text {a b : SourceName} (h : a.text = b.text) : a = b := by
  cases a
  cases b
  cases h
  rfl

/-- The XML of `n`, at any depth and followed by anything, determines `n` and
what follows, among printable trees. -/
def Decodes (n : ExportTree) : Prop :=
  ∀ (depth : Nat) (n' : ExportTree) (r r' : List Char), Printable n' →
    (xmlAt depth n).toList ++ r = (xmlAt depth n').toList ++ r' → n = n' ∧ r = r'

-- ---------------------------------------------------------------------------
-- Reading the layout back, line by line
-- ---------------------------------------------------------------------------

section Lines

variable {d : Nat} {r r' : List Char}

theorem afterOpen_eq_of_xmlAt {n n' : ExportTree} (hn : IsTag n.tag) (hn' : IsTag n'.tag)
    (h : (xmlAt d n).toList ++ r = (xmlAt d n').toList ++ r') :
    n.tag = n'.tag ∧ afterOpen d n ++ r = afterOpen d n' ++ r' := by
  rw [toList_xmlAt, toList_xmlAt] at h
  simp only [List.append_assoc, List.cons_append, List.append_cancel_left_eq, List.cons.injEq,
    true_and] at h
  obtain ⟨htag, hrest⟩ := append_cons_cancel (gt_not_mem_tag hn) (gt_not_mem_tag hn') h
  exact ⟨String.toList_inj.mp htag, hrest⟩

theorem afterOpen_inline_ne {tag content : String} {x : List Char} (hnl : '\n' ∉ content.toList) :
    afterOpen d (.text tag none content) ++ r ≠ '\n' :: x := by
  intro h
  simp only [afterOpen, List.append_assoc, List.cons_append] at h
  cases he : (escape content).toList with
  | nil =>
    rw [he, List.nil_append] at h
    cases h
  | cons e es =>
    rw [he, List.cons_append] at h
    obtain ⟨rfl, -⟩ := List.cons.inj h
    exact newline_not_mem_escape hnl (he ▸ List.mem_cons_self)

theorem escape_newline_ne {content : String} {x y : List Char} :
    (escape content).toList ++ '\n' :: x ≠ '<' :: y := by
  intro h
  cases he : (escape content).toList with
  | nil =>
    rw [he, List.nil_append] at h
    cases h
  | cons e es =>
    rw [he, List.cons_append] at h
    obtain ⟨rfl, -⟩ := List.cons.inj h
    exact lt_not_mem_escape _ (he ▸ List.mem_cons_self)

def NoComment (line : List Char) : Prop := ∀ rest, line ≠ ' ' :: ' ' :: '<' :: '!' :: rest

theorem labelLine_ne_noComment {l : SourceName} {y y' : List Char} (hy : NoComment y) :
    (pad d).toList ++ y ≠ (labelLine d (some l)).toList ++ ((pad d).toList ++ y') := by
  intro h
  rw [toList_labelLine_some] at h
  simp only [List.append_assoc, List.cons_append, List.append_cancel_left_eq] at h
  exact hy _ h

theorem label_prefix {l l' : Option SourceName} {y y' : List Char} (hy : NoComment y)
    (hy' : NoComment y')
    (h : (labelLine d l).toList ++ ((pad d).toList ++ y) =
      (labelLine d l').toList ++ ((pad d).toList ++ y')) :
    l = l' ∧ y = y' := by
  cases l with
  | none =>
    cases l' with
    | none =>
      rw [toList_labelLine_none, List.nil_append, List.nil_append] at h
      exact ⟨rfl, List.append_cancel_left h⟩
    | some l' =>
      rw [toList_labelLine_none, List.nil_append] at h
      exact absurd h (labelLine_ne_noComment hy)
  | some l =>
    cases l' with
    | none =>
      rw [toList_labelLine_none, List.nil_append] at h
      exact absurd h.symm (labelLine_ne_noComment hy')
    | some l' =>
      rw [toList_labelLine_some, toList_labelLine_some] at h
      simp only [List.append_assoc, List.cons_append, List.append_cancel_left_eq, List.cons.injEq,
        true_and] at h
      obtain ⟨htext, hrest⟩ := append_cons_cancel (space_not_mem_name l) (space_not_mem_name l') h
      simp only [List.cons.injEq, true_and, List.nil_append, List.append_cancel_left_eq] at hrest
      exact ⟨congrArg some (SourceName.eq_of_text (String.toList_inj.mp htext)), hrest⟩

/-- The line after the label position is no label comment: a text line
starts with two spaces and no `<`, a child with two spaces and `<` and a name
character, and the closing line with `<`. -/
theorem middle_noComment {n : ExportTree} (hn : Printable n) :
    ∃ y, middleChars d n ++ (closeChars d n.tag ++ r) = (pad d).toList ++ y ∧ NoComment y := by
  cases hn with
  | text htag hnl =>
    rename_i tag label content
    refine ⟨' ' :: ' ' :: ((escape content).toList ++ '\n' :: (closeChars d tag ++ r)), ?_,
      fun rest h => ?_⟩
    · simp only [middleChars, ExportTree.tag, List.append_assoc, List.cons_append, List.nil_append]
    simp only [List.cons.injEq, true_and] at h
    exact escape_newline_ne h
  | node htag hcs =>
    rename_i tag label cs
    cases cs with
    | nil =>
      refine ⟨'<' :: '/' :: (tag.toList ++ ['>', '\n'] ++ r), ?_, fun rest h => ?_⟩
      · simp only [middleChars, closeChars, ExportTree.tag, List.map_nil, List.flatMap_nil,
          List.nil_append, List.append_assoc, List.cons_append]
      cases h
    | cons c cs =>
      refine ⟨' ' :: ' ' :: '<' :: (c.tag.toList ++ '>' :: (afterOpen (d + 1) c ++
        ((cs.map (xmlAt (d + 1))).flatMap String.toList ++ (closeChars d tag ++ r)))), ?_,
        fun rest h => ?_⟩
      · simp only [middleChars, ExportTree.tag, List.map_cons, List.flatMap_cons, toList_xmlAt_succ,
          List.append_assoc, List.cons_append]
      simp only [List.cons.injEq, true_and] at h
      -- a child's tag starts with a name character
      have hc := (hcs c List.mem_cons_self).isTag
      cases ht : c.tag.toList with
      | nil =>
        rw [ht, List.nil_append] at h
        cases h
      | cons t ts =>
        rw [ht, List.cons_append] at h
        obtain ⟨rfl, -⟩ := List.cons.inj h
        exact (hc.2 _ (ht ▸ List.mem_cons_self)).ne.2.2.1 rfl

theorem children_prefix {tag : String} : ∀ {cs cs' : List ExportTree} {r r' : List Char},
    (∀ c ∈ cs, Decodes c) → (∀ c ∈ cs', Printable c) →
    (cs.map (xmlAt (d + 1))).flatMap String.toList ++ (closeChars d tag ++ r) =
      (cs'.map (xmlAt (d + 1))).flatMap String.toList ++ (closeChars d tag ++ r') →
    cs = cs' ∧ r = r'
  | [], [], r, r', _, _, h => by
    simp only [List.map_nil, List.flatMap_nil, List.nil_append, List.append_cancel_left_eq] at h
    exact ⟨rfl, h⟩
  | [], c' :: cs', r, r', _, _, h => by
    simp only [List.map_nil, List.flatMap_nil, List.nil_append, List.map_cons, List.flatMap_cons,
      toList_xmlAt_succ, closeChars, List.append_assoc, List.cons_append,
      List.append_cancel_left_eq] at h
    cases h
  | c :: cs, [], r, r', _, _, h => by
    simp only [List.map_nil, List.flatMap_nil, List.nil_append, List.map_cons, List.flatMap_cons,
      toList_xmlAt_succ, closeChars, List.append_assoc, List.cons_append,
      List.append_cancel_left_eq] at h
    cases h
  | c :: cs, c' :: cs', r, r', hdec, hcs', h => by
    simp only [List.map_cons, List.flatMap_cons, List.append_assoc] at h
    obtain ⟨rfl, hrest⟩ := hdec c List.mem_cons_self (d + 1) c' _ _ (hcs' c' List.mem_cons_self) h
    obtain ⟨rfl, rfl⟩ := children_prefix (fun c hc => hdec c (List.mem_cons_of_mem _ hc))
      (fun c hc => hcs' c (List.mem_cons_of_mem _ hc)) hrest
    exact ⟨rfl, rfl⟩

theorem middle_text_ne_node {tag tag' content : String} {label label' : Option SourceName}
    {cs : List ExportTree} :
    middleChars d (.text tag label content) ++ (closeChars d tag ++ r) ≠
      middleChars d (.node tag' label' cs) ++ (closeChars d tag' ++ r') := by
  intro h
  cases cs with
  | nil =>
    simp only [middleChars, closeChars, List.map_nil, List.flatMap_nil, List.nil_append,
      List.append_assoc, List.cons_append, List.append_cancel_left_eq] at h
    cases h
  | cons c cs =>
    simp only [middleChars, List.map_cons, List.flatMap_cons, toList_xmlAt_succ, List.append_assoc,
      List.cons_append, List.nil_append, List.append_cancel_left_eq, List.cons.injEq, true_and] at h
    exact escape_newline_ne h

theorem eq_of_middle {n n' : ExportTree} (hn : Printable n) (hn' : Printable n')
    (hdec : ∀ c ∈ n.children, Decodes c) (htag : n.tag = n'.tag) (hlabel : n.label = n'.label)
    (h : middleChars d n ++ (closeChars d n.tag ++ r) =
      middleChars d n' ++ (closeChars d n'.tag ++ r')) :
    n = n' ∧ r = r' := by
  cases hn with
  | @text tag label content _ hnl =>
    cases hn' with
    | @text tag' label' content' _ hnl' =>
      cases htag
      cases hlabel
      simp only [middleChars, ExportTree.tag, List.append_assoc, List.cons_append, List.nil_append,
        List.append_cancel_left_eq, List.cons.injEq, true_and] at h
      obtain ⟨hesc, hrest⟩ :=
        append_cons_cancel (newline_not_mem_escape hnl) (newline_not_mem_escape hnl') h
      cases escape_injective (String.toList_inj.mp hesc)
      exact ⟨rfl, List.append_cancel_left hrest⟩
    | node _ _ => exact absurd h middle_text_ne_node
  | @node tag label cs _ hcs =>
    cases hn' with
    | text _ _ => exact absurd h.symm middle_text_ne_node
    | @node tag' label' cs' _ hcs' =>
      cases htag
      cases hlabel
      obtain ⟨rfl, rfl⟩ := children_prefix hdec hcs' h
      exact ⟨rfl, rfl⟩

/-- What follows the opening tag determines the rest of a node: an
unlabelled text stays on the line, every other node goes on with a line
feed, its label line if it has one, what it holds and its closing line. -/
theorem eq_of_afterOpen {n n' : ExportTree} (hn : Printable n) (hn' : Printable n')
    (hdec : ∀ c ∈ n.children, Decodes c) (htag : n.tag = n'.tag)
    (h : afterOpen d n ++ r = afterOpen d n' ++ r') : n = n' ∧ r = r' := by
  rcases afterOpen_cases d n with ⟨tag, content, rfl⟩ | hblock <;>
    rcases afterOpen_cases d n' with ⟨tag', content', rfl⟩ | hblock'
  · -- two unlabelled texts: the text ends at the first `<`
    cases htag
    simp only [afterOpen, List.append_assoc, List.cons_append] at h
    obtain ⟨hesc, hrest⟩ := append_cons_cancel (lt_not_mem_escape _) (lt_not_mem_escape _) h
    cases escape_injective (String.toList_inj.mp hesc)
    simp only [List.cons.injEq, true_and, List.append_cancel_left_eq] at hrest
    exact ⟨rfl, hrest⟩
  · rw [hblock', List.cons_append] at h
    cases hn with
    | text _ hnl => exact absurd h (afterOpen_inline_ne hnl)
  · rw [hblock, List.cons_append] at h
    cases hn' with
    | text _ hnl' => exact absurd h.symm (afterOpen_inline_ne hnl')
  · rw [hblock, hblock'] at h
    simp only [List.cons_append, List.cons.injEq, true_and, List.append_assoc] at h
    obtain ⟨y, hy, hny⟩ := middle_noComment (d := d) (r := r) hn
    obtain ⟨y', hy', hny'⟩ := middle_noComment (d := d) (r := r') hn'
    rw [hy, hy'] at h
    obtain ⟨hlabel, rfl⟩ := label_prefix hny hny' h
    exact eq_of_middle hn hn' hdec htag hlabel (hy.trans hy'.symm)

end Lines

/-- The XML of a printable tree, followed by anything, determines the tree
and what follows, among printable trees. -/
theorem decodes {n : ExportTree} (hn : Printable n) : Decodes n := by
  induction hn with
  | text htag hnl =>
    intro d n' r r' hn' h
    obtain ⟨htag', hafter⟩ := afterOpen_eq_of_xmlAt (Printable.text htag hnl).isTag hn'.isTag h
    exact eq_of_afterOpen (.text htag hnl) hn' (fun _ hc => nomatch hc) htag' hafter
  | node htag hcs ih =>
    intro d n' r r' hn' h
    obtain ⟨htag', hafter⟩ := afterOpen_eq_of_xmlAt (Printable.node htag hcs).isTag hn'.isTag h
    exact eq_of_afterOpen (.node htag hcs) hn' ih htag' hafter

theorem toXml_injective {n₁ n₂ : ExportTree} (h₁ : Printable n₁) (h₂ : Printable n₂)
    (h : toXml n₁ = toXml n₂) : n₁ = n₂ := by
  have h' : (xmlAt 0 n₁).toList ++ [] = (xmlAt 0 n₂).toList ++ [] := by
    rw [List.append_nil, List.append_nil]
    exact congrArg String.toList h
  exact (decodes h₁ 0 n₂ [] [] h₂ h').1

/-- The XML dump is unambiguous. Two trees whose tags are non-empty and made
of letters, digits and underscores, and whose texts hold no line feed, have
the same XML only when they are the same tree: the same tags, labels and
texts, and the same children in order. Escaping goes character by character,
writes `&`, `<` and `>` as `&amp;`, `&lt;` and `&gt;` and every other
character as itself, and two texts escape alike only when they are equal. -/
theorem xml_is_unambiguous :
    (∀ n₁ n₂ : ExportTree, Printable n₁ → Printable n₂ → toXml n₁ = toXml n₂ → n₁ = n₂) ∧
    (∀ s t : String, escape (s ++ t) = escape s ++ escape t) ∧
    (escape "&" = "&amp;" ∧ escape "<" = "&lt;" ∧ escape ">" = "&gt;") ∧
    (∀ c : Char, c ≠ '&' → c ≠ '<' → c ≠ '>' → escape (String.singleton c) = String.singleton c) ∧
    Function.Injective escape :=
  ⟨fun _ _ h₁ h₂ h => toXml_injective h₁ h₂ h, escape_append, ⟨by decide, by decide, by decide⟩,
    fun _ h1 h2 h3 => escape_singleton h1 h2 h3, escape_injective⟩

end ExportTree

end RoundRobin
