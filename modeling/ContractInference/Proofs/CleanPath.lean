import ContractInference.Path.Basic
import Mathlib.Data.List.Nodup

/-!
# Clean paths

What the reader of paths makes of a text: a root of at most two slashes and names without slashes.
Such a path is read back from its text, and text that is written after it changes its last part and
adds parts after that one.
-/

namespace ContractInference

namespace Path

/-- A path as the reader of paths makes it: nothing, one slash or two in front, and parts that are
names without slashes. -/
structure Clean (p : Path) : Prop where
  root : p.root = "" ∨ p.root = "/" ∨ p.root = "//"
  names : ∀ part ∈ p.parts, isName part = true
  slashFree : ∀ part ∈ p.parts, '/' ∉ part.toList

theorem notMem_of_mem_splitOn {sep : Char} {cs piece : List Char} (h : piece ∈ cs.splitOn sep) :
    sep ∉ piece := by
  induction cs generalizing piece with
  | nil =>
    obtain rfl : piece = [] := by simpa using h
    exact List.not_mem_nil
  | cons c cs ih =>
    rw [List.splitOn, List.splitOnP_cons_eq_if_modifyHead] at h
    split at h
    case isTrue =>
      rcases List.mem_cons.1 h with rfl | h
      · exact List.not_mem_nil
      · exact ih h
    case isFalse hc =>
      obtain ⟨first, rest, hsplit⟩ :=
        List.exists_cons_of_ne_nil (List.splitOnP_ne_nil (· == sep) cs)
      rw [hsplit, List.modifyHead_cons] at h
      have hpieces : ∀ piece ∈ first :: rest, sep ∉ piece := by
        rw [← hsplit]
        exact fun piece hpiece => ih hpiece
      rcases List.mem_cons.1 h with rfl | h
      · intro hmem
        rcases List.mem_cons.1 hmem with rfl | hmem
        · simp at hc
        · exact hpieces first List.mem_cons_self hmem
      · exact hpieces piece (List.mem_cons_of_mem _ h)

theorem rootOf_eq (cs : List Char) : rootOf cs = "" ∨ rootOf cs = "/" ∨ rootOf cs = "//" := by
  unfold rootOf
  split <;> simp

theorem clean_ofString (s : String) : Clean (ofString s) where
  root := rootOf_eq _
  names := fun part h => (List.mem_filter.1 h).2
  slashFree := by
    intro part h
    obtain ⟨piece, hpiece, rfl⟩ := List.mem_map.1 (List.mem_filter.1 h).1
    rw [String.toList_ofList]
    exact notMem_of_mem_splitOn hpiece

theorem Clean.append {p q : Path} (hp : Clean p) (hq : Clean q) {parts : List String}
    (h : parts ⊆ q.parts) : Clean { p with parts := p.parts ++ parts } where
  root := hp.root
  names part hpart :=
    (List.mem_append.1 hpart).elim (hp.names part) fun hmem => hq.names part (h hmem)
  slashFree part hpart :=
    (List.mem_append.1 hpart).elim (hp.slashFree part) fun hmem => hq.slashFree part (h hmem)

theorem Clean.join {p : Path} (h : Clean p) (s : String) : Clean (p.join s) := by
  rw [Path.join]
  split
  case isTrue => exact clean_ofString s
  case isFalse => exact h.append (clean_ofString s) (List.Subset.refl _)

theorem toList_intercalate_concat (part s : String) (parts : List String) :
    ("/".intercalate (part :: (parts ++ [s]))).toList =
      part.toList ++ '/' :: ("/".intercalate (parts ++ [s])).toList := by
  cases parts <;> simp [String.toList_intercalate]

theorem intercalate_append (parts : List String) (last s : String) :
    "/".intercalate (parts ++ [last]) ++ s = "/".intercalate (parts ++ [last ++ s]) := by
  apply String.toList_injective
  induction parts with
  | nil => simp
  | cons part parts ih =>
    rw [String.toList_append] at ih ⊢
    rw [List.cons_append, List.cons_append, toList_intercalate_concat, toList_intercalate_concat,
      ← ih, List.append_assoc, List.cons_append]

theorem pieces_append_slash (cs ds : List Char) :
    pieces (cs ++ '/' :: ds) = pieces cs ++ pieces ds := by
  rw [pieces, List.splitOn, List.splitOnP_append_cons cs ds rfl, List.map_append]
  rfl

theorem pieces_of_slashFree {s : String} (h : '/' ∉ s.toList) : pieces s.toList = [s] := by
  have hsplit : s.toList.splitOn '/' = [s.toList] := by
    have hfree : ∀ cs ∈ [s.toList], '/' ∉ cs := by simpa using h
    simpa using List.splitOn_intercalate '/' hfree (List.cons_ne_nil _ _)
  rw [pieces, hsplit, List.map_singleton, String.ofList_toList]

theorem filter_pieces_of_name {s : String} (hname : isName s = true) (hslash : '/' ∉ s.toList) :
    (pieces s.toList).filter isName = [s] := by
  rw [pieces_of_slashFree hslash]
  exact List.filter_eq_self.2 (by simpa using hname)

/-- What stands between the slashes of a text that is written after some parts: those parts, and
what stands between the slashes of the text. -/
theorem filter_pieces_intercalate {parts : List String}
    (hnames : ∀ part ∈ parts, isName part = true) (hslash : ∀ part ∈ parts, '/' ∉ part.toList)
    (s : String) :
    (pieces ("/".intercalate (parts ++ [s])).toList).filter isName =
      parts ++ (pieces s.toList).filter isName := by
  induction parts with
  | nil => simp
  | cons part parts ih =>
    obtain ⟨hname, hnames⟩ := List.forall_mem_cons.1 hnames
    obtain ⟨hpart, hslash⟩ := List.forall_mem_cons.1 hslash
    rw [List.cons_append, toList_intercalate_concat, pieces_append_slash, List.filter_append,
      ih hnames hslash, filter_pieces_of_name hname hpart]
    rfl

theorem Clean.filter_pieces {p : Path} (h : Clean p) :
    (pieces ("/".intercalate p.parts).toList).filter isName = p.parts := by
  obtain ⟨root, parts⟩ := p
  obtain ⟨-, hnames, hslash⟩ := h
  rcases List.eq_nil_or_concat' parts with rfl | ⟨init, last, rfl⟩
  · rfl
  · simp only [List.forall_mem_append, List.forall_mem_singleton] at hnames hslash
    rw [filter_pieces_intercalate hnames.1 hslash.1, filter_pieces_of_name hnames.2 hslash.2]

theorem Clean.text_parts {p : Path} (h : Clean p) (hparts : p.parts ≠ []) :
    ∃ c cs, c ≠ '/' ∧ ("/".intercalate p.parts).toList = c :: cs := by
  obtain ⟨part, parts, hcons⟩ := List.exists_cons_of_ne_nil hparts
  have hname := h.names part (hcons ▸ List.mem_cons_self)
  have hslash := h.slashFree part (hcons ▸ List.mem_cons_self)
  have hne : part.toList ≠ [] := by
    rintro hempty
    rw [String.toList_eq_nil_iff.1 hempty] at hname
    cases hname
  obtain ⟨c, cs, hpart⟩ := List.exists_cons_of_ne_nil hne
  refine ⟨c, cs ++ ("/".intercalate ("" :: parts)).toList, ?_, ?_⟩
  · rintro rfl
    exact hslash (hpart ▸ List.mem_cons_self)
  · rw [hcons]
    cases parts <;> simp [String.toList_intercalate, hpart]

theorem filter_pieces_slash (cs : List Char) :
    (pieces ('/' :: cs)).filter isName = (pieces cs).filter isName := by
  rw [← List.nil_append ('/' :: cs), pieces_append_slash]
  rfl

theorem rootOf_of_ne {cs : List Char} (h : ∀ rest, cs ≠ '/' :: rest) : rootOf cs = "" := by
  unfold rootOf
  split
  case h_1 => exact absurd rfl (h _)
  case h_2 => exact absurd rfl (h _)
  case h_3 => exact absurd rfl (h _)
  case h_4 => rfl

theorem rootOf_slash {cs : List Char} (h : ∀ rest, cs ≠ '/' :: rest) :
    rootOf ('/' :: cs) = "/" := by
  unfold rootOf
  split
  case h_1 heq => rfl
  case h_2 heq => exact absurd (List.cons.inj heq).2 (h _)
  case h_3 => rfl
  case h_4 hne => exact absurd rfl (hne cs)

theorem rootOf_slashes {cs : List Char} (h : ∀ rest, cs ≠ '/' :: rest) :
    rootOf ('/' :: '/' :: cs) = "//" := by
  unfold rootOf
  split
  case h_1 heq => exact absurd (List.cons.inj (List.cons.inj heq).2).2 (h _)
  case h_2 => rfl
  case h_3 _ hne heq => exact absurd (List.cons.inj heq).2.symm (hne cs)
  case h_4 hne => exact absurd rfl (hne _)

theorem ofString_root_append {root s : String} (hroot : root = "" ∨ root = "/" ∨ root = "//")
    (h : ∀ rest, s.toList ≠ '/' :: rest) :
    ofString (root ++ s) = ⟨root, (pieces s.toList).filter isName⟩ := by
  rw [ofString, String.toList_append]
  generalize s.toList = cs at h
  rcases hroot with rfl | rfl | rfl
  · show Path.mk (rootOf cs) ((pieces cs).filter isName) = _
    rw [rootOf_of_ne h]
  · show Path.mk (rootOf ('/' :: cs)) ((pieces ('/' :: cs)).filter isName) = _
    rw [rootOf_slash h, filter_pieces_slash]
  · show Path.mk (rootOf ('/' :: '/' :: cs)) ((pieces ('/' :: '/' :: cs)).filter isName) = _
    rw [rootOf_slashes h, filter_pieces_slash, filter_pieces_slash]

theorem text_of_parts {p : Path} (h : p.parts ≠ [] ∨ p.isAbsolute = true) (hclean : Clean p) :
    p.text = p.root ++ "/".intercalate p.parts := by
  have hne : (p.root.isEmpty && ("/".intercalate p.parts).isEmpty) = false := by
    rcases h with hparts | habsolute
    · obtain ⟨c, cs, -, htext⟩ := hclean.text_parts hparts
      have hjoined : "/".intercalate p.parts ≠ "" := by
        intro hempty
        rw [hempty] at htext
        cases htext
      simp [hjoined]
    · have hroot : p.root.isEmpty = false := by simpa [isAbsolute] using habsolute
      simp [hroot]
  simp [text, hne]

/-- The text of a clean path reads back as the path. -/
theorem Clean.ofString_text {p : Path} (h : Clean p) : ofString p.text = p := by
  by_cases hparts : p.parts = []
  · obtain ⟨root, parts⟩ := p
    obtain rfl : parts = [] := hparts
    rcases h.root with hroot | hroot | hroot <;> obtain rfl : root = _ := hroot <;> decide
  · obtain ⟨c, cs, hc, htext⟩ := h.text_parts hparts
    rw [text_of_parts (.inl hparts) h, ofString_root_append h.root, h.filter_pieces]
    intro rest hrest
    rw [htext] at hrest
    exact hc (List.cons.inj hrest).1

/-- Text that is written after a path goes into its last part, up to the first slash. -/
theorem Clean.ofString_text_append {p : Path} (h : Clean p) {init : List String} {last : String}
    (hparts : p.parts = init ++ [last]) (s : String) :
    ofString (p.text ++ s) = ⟨p.root, init ++ (pieces (last ++ s).toList).filter isName⟩ := by
  have hne : p.parts ≠ [] := by simp [hparts]
  obtain ⟨c, cs, hc, htext⟩ := h.text_parts hne
  have hnames : ∀ part ∈ init, isName part = true := fun part hpart =>
    h.names part (by simp [hparts, hpart])
  have hslash : ∀ part ∈ init, '/' ∉ part.toList := fun part hpart =>
    h.slashFree part (by simp [hparts, hpart])
  rw [text_of_parts (.inl hne) h, String.append_assoc, ofString_root_append h.root, hparts,
    intercalate_append, filter_pieces_intercalate hnames hslash]
  intro rest hrest
  rw [String.toList_append, htext] at hrest
  exact hc (List.cons.inj hrest).1

end Path

end ContractInference
