import ContractInference.Proofs.StringLiteral

/-!
# Quoted text as a string literal

A text that is written in JSON is a string literal as well, in which only escapes that JSON has
occur. However it is cut into fragments and escapes, reading the pieces gives the text again.
-/

namespace ContractInference

namespace CodePoint

theorem val_ofChar (c : Char) : (ofChar c).val = c.toNat := by
  have hvalid : c.toNat < 0x110000 := by
    have := c.valid
    simp only [UInt32.isValidChar, Nat.isValidChar] at this
    simp only [Char.toNat]
    omega
  exact Nat.mod_eq_of_lt hvalid

theorem ofChar_injective : Function.Injective ofChar := by
  intro c d h
  have := congrArg Fin.val h
  rw [val_ofChar, val_ofChar] at this
  exact Char.toNat_inj.1 this

end CodePoint

namespace Escape

def points (e : Escape) : List CodePoint := (Text.ofString e.text).points

theorem points_eq (e : Escape) : e.points = ('\\' :: e.tail).map CodePoint.ofChar := by
  rw [points, text, Text.ofString, String.toList_ofList]
  rfl

/-- JSON has the escape too. -/
def isShared : Escape → Bool
  | character c _ => (Json.shortEscape? c).isSome
  | unit _ _ _ _ => true
  | _ => false

def ofUnit (n : Nat) : Escape :=
  .unit (.hex (n / 0x1000)) (.hex (n / 0x100)) (.hex (n / 16)) (.hex n)

theorem points_ofUnit (n : Nat) : (ofUnit n).points = Json.unitEscape n := by
  have hdigit : ∀ v : Fin 16, CodePoint.ofChar (Digit.char ⟨v, false⟩) = Json.hexDigit v := by
    decide
  simp only [points_eq, ofUnit, Digit.hex, tail, Json.unitEscape, List.map_cons, List.map_nil,
    hdigit, Fin.val_ofNat]

theorem decodeEscape_ofUnit {n : Nat} (h : n < 0x10000) :
    Literal.decodeEscape (ofUnit n).text = ⟨[CodePoint.ofNat n]⟩ := by
  have hnumber :
      Digit.number [.hex (n / 0x1000), .hex (n / 0x100), .hex (n / 16), .hex n] = n := by
    simp only [number_four, Digit.hex, Fin.val_ofNat]
    omega
  rw [ofUnit, decodeEscape_unit, hnumber]

/-- After the backslash one character says which form an escape has, and for `u` the next one. -/
theorem tail_cases (e : Escape) : ∃ c rest, e.tail = c :: rest ∧
    (c ≠ 'u' ∧ (rest = [] ∨ Json.shortEscape? c = none) ∨
      c = 'u' ∧ (rest.length = 4 ∨ rest.head? = some '\x7b')) := by
  cases e with
  | character c plain =>
    refine ⟨c, [], rfl, .inl ⟨?_, .inl rfl⟩⟩
    rintro rfl
    exact plain (by decide)
  | octal digits count =>
    obtain ⟨c, rest, htail, hu, hshort⟩ := tail_octal count
    exact ⟨c, rest, htail, .inl ⟨hu, .inr hshort⟩⟩
  | byte a b => exact ⟨'x', _, rfl, .inl ⟨by decide, .inr rfl⟩⟩
  | unit a b c d => exact ⟨'u', _, rfl, .inr ⟨rfl, .inl rfl⟩⟩
  | point digits nonempty bound => exact ⟨'u', _, rfl, .inr ⟨rfl, .inr rfl⟩⟩
  | returnFeed => exact ⟨'\r', _, rfl, .inl ⟨by decide, .inr rfl⟩⟩
  | separated first start separator ends =>
    obtain ⟨hu, hshort⟩ := shortEscape?_of_start start
    exact ⟨first, [separator], rfl, .inl ⟨hu, .inr hshort⟩⟩

theorem tail_of_isShared {e : Escape} (h : e.isShared = true) :
    (∃ c, c ≠ 'u' ∧ Json.shortEscape? c ≠ none ∧ e.tail = [c]) ∨
      ∃ d : Digit 16, ∃ rest, rest.length = 3 ∧ e.tail = 'u' :: d.char :: rest := by
  cases e with
  | character c plain =>
    refine .inl ⟨c, ?_, Option.isSome_iff_ne_none.1 h, rfl⟩
    rintro rfl
    exact plain (by decide)
  | unit a b c d => exact .inr ⟨a, _, rfl, rfl⟩
  | octal | byte | point | returnFeed | separated => cases h

/-- What starts with an escape that JSON has starts with no other escape. -/
theorem eq_of_append_eq_append {e e' : Escape} (h : e'.isShared = true) {ps ps' : List CodePoint}
    (heq : e.points ++ ps = e'.points ++ ps') : e.text = e'.text ∧ ps = ps' := by
  rw [points_eq, points_eq, List.map_cons, List.map_cons, List.cons_append, List.cons_append,
    List.cons_inj_right] at heq
  have hlength : e.tail.length = e'.tail.length := by
    obtain ⟨c, rest, htail, hform⟩ := e.tail_cases
    rcases tail_of_isShared h with ⟨c', hu, hshort, htail'⟩ | ⟨d, rest', hrest', htail'⟩
    · rw [htail, htail'] at heq ⊢
      obtain rfl : c = c' := CodePoint.ofChar_injective (List.cons.inj heq).1
      rcases hform with ⟨-, rfl | hnone⟩ | ⟨rfl, -⟩
      · rfl
      · exact absurd hnone hshort
      · exact absurd rfl hu
    · rw [htail, htail'] at heq ⊢
      obtain ⟨hc, hafter⟩ := List.cons.inj heq
      obtain rfl : c = 'u' := CodePoint.ofChar_injective hc
      rcases hform with ⟨hu, -⟩ | ⟨-, hfour | hbrace⟩
      · exact absurd rfl hu
      · simp [hfour, hrest']
      · obtain ⟨rest, rfl⟩ := List.head?_eq_some_iff.1 hbrace
        have hd : d.char = '\x7b' := CodePoint.ofChar_injective (List.cons.inj hafter).1.symm
        exact absurd hd (d.forall_char (P := fun _ c => c ≠ '\x7b') (by decide))
  obtain ⟨htail, hps⟩ := List.append_inj heq (by simp [hlength])
  rw [text, text, List.map_injective_iff.2 CodePoint.ofChar_injective htail]
  exact ⟨rfl, hps⟩

end Escape

/-- A point is written as itself if it is no control, quote or backslash, and otherwise as an escape
that is read as the point. -/
theorem Json.escapePoint_cases (p : CodePoint) :
    (escapePoint p = [p] ∧ 0x20 ≤ p.val ∧ p.val ≠ 0x22 ∧ p.val ≠ 0x5C) ∨
      ∃ e : Escape, e.isShared = true ∧ e.points = escapePoint p ∧
        Literal.decodeEscape e.text = ⟨[p]⟩ := by
  have hp : ∀ n, p.val = n → CodePoint.ofNat n = p := fun n hn => by
    rw [← hn]
    exact Fin.ofNat_val_eq_self p
  unfold escapePoint
  cases h : shortEscapes.lookup p.val with
  | some c =>
    have hshort : ∀ e ∈ shortEscapes, e.2 ∉ ['x', 'u', '0', '1', '2', '3', '4', '5', '6', '7'] ∧
        shortEscape? e.2 = some (CodePoint.ofNat e.1) :=
      List.forall_iff_forall_mem.1 (by decide)
    obtain ⟨hplain, hvalue⟩ := hshort (p.val, c) (by
      obtain ⟨before, after, htable, -⟩ := List.lookup_eq_some_iff.1 h
      simp [htable])
    refine .inr ⟨.character c hplain, by simp [Escape.isShared, hvalue], Escape.points_eq _, ?_⟩
    have hu : c ≠ 'u' := fun hc => hplain (by simp [hc])
    rw [Escape.text, Escape.tail, Escape.decodeEscape_character c hu, hvalue, hp _ rfl]
    rfl
  | none =>
    by_cases hcontrol : p.val < 0x20
    · refine .inr ⟨.ofUnit p.val, rfl, ?_, ?_⟩
      · rw [Escape.points_ofUnit]
        simp [hcontrol]
      · rw [Escape.decodeEscape_ofUnit (by omega), hp _ rfl]
    · refine .inl ⟨by simp [hcontrol], by omega, ?_, ?_⟩
      · intro hquote
        rw [hquote] at h
        cases h
      · intro hbackslash
        rw [hbackslash] at h
        cases h

namespace Piece

/-- What a piece is written with. -/
def points : Piece → List CodePoint
  | fragment t => t.points
  | escape e => e.points

def isFragment : Piece → Bool
  | fragment _ => true
  | escape _ => false

end Piece

/-- The points that cannot stand in a fragment between double quotes. -/
def fragmentStops : List CodePoint := ['"', '\\', '\n', '\r'].map CodePoint.ofChar

/-- What stands between double quotes, cut into its pieces: no fragment is empty, and none could be
longer. -/
structure IsCut (body : List CodePoint) (pieces : List Piece) : Prop where
  written : body = pieces.flatMap Piece.points
  fragments : ∀ f, Piece.fragment f ∈ pieces → f.points ≠ [] ∧ ∀ p ∈ f.points, p ∉ fragmentStops
  maximal : pieces.IsChain fun p q => (p.isFragment && q.isFragment) = false

/-- A literal between double quotes with its pieces. -/
def IsSplit (t : Text) (pieces : List Piece) : Prop :=
  ∃ body, t.points = Json.quote :: body ++ [Json.quote] ∧ IsCut body pieces

namespace IsCut

variable {body : List CodePoint} {pieces : List Piece}

theorem cons_escape (h : IsCut body pieces) (e : Escape) :
    IsCut (e.points ++ body) (.escape e :: pieces) where
  written := congrArg (e.points ++ ·) h.written
  fragments := by simpa using h.fragments
  maximal := by
    have hmaximal := h.maximal
    cases pieces with
    | nil => exact .singleton _
    | cons q pieces => exact .cons_cons rfl hmaximal

theorem cons_point (h : IsCut body pieces) {p : CodePoint} (hp : p ∉ fragmentStops) :
    ∃ pieces', IsCut (p :: body) pieces' ∧
      ∀ e, Piece.escape e ∈ pieces' ↔ Piece.escape e ∈ pieces := by
  obtain ⟨hwritten, hfragments, hmaximal⟩ := h
  rcases pieces with _ | ⟨f | e, pieces⟩
  · exact ⟨[.fragment ⟨[p]⟩], ⟨by rw [hwritten]; rfl, by simpa using hp, .singleton _⟩, by simp⟩
  · refine ⟨.fragment ⟨p :: f.points⟩ :: pieces, ⟨?_, ?_, ?_⟩, by simp⟩
    · rw [hwritten]
      rfl
    · intro f' hf'
      rcases List.mem_cons.1 hf' with hf' | hf'
      · cases hf'
        exact ⟨by simp, List.forall_mem_cons.2 ⟨hp, (hfragments f List.mem_cons_self).2⟩⟩
      · exact hfragments f' (List.mem_cons_of_mem _ hf')
    · cases hmaximal with
      | singleton => exact .singleton _
      | cons_cons hnext hrest => exact .cons_cons hnext hrest
  · refine ⟨.fragment ⟨[p]⟩ :: .escape e :: pieces, ⟨?_, ?_, .cons_cons rfl hmaximal⟩, by simp⟩
    · rw [hwritten]
      rfl
    · intro f hf
      rcases List.mem_cons.1 hf with hf | hf
      · cases hf
        simpa using hp
      · exact hfragments f hf

theorem length_le (h : IsCut body pieces) : pieces.length ≤ body.length := by
  obtain ⟨rfl, hfragments, -⟩ := h
  induction pieces with
  | nil => exact Nat.le_refl 0
  | cons piece pieces ih =>
    have hpiece : piece.points.length ≠ 0 := by
      cases piece with
      | fragment f => simpa [Piece.points] using (hfragments f List.mem_cons_self).1
      | escape e => simp [Piece.points, Escape.points_eq]
    have := ih fun f hf => hfragments f (List.mem_cons_of_mem _ hf)
    rw [List.flatMap_cons, List.length_append, List.length_cons]
    omega

end IsCut

namespace Json

theorem exists_escape_of_head {p : CodePoint}
    (h : (escapePoint p).head? = some (CodePoint.ofChar '\\')) :
    ∃ e : Escape, e.isShared = true ∧ e.points = escapePoint p ∧
      Literal.decodeEscape e.text = ⟨[p]⟩ := by
  refine (escapePoint_cases p).resolve_left ?_
  rintro ⟨hself, -, -, hbackslash⟩
  rw [hself] at h
  obtain rfl : p = CodePoint.ofChar '\\' := Option.some.inj h
  exact hbackslash rfl

theorem escapePoint_ne_nil (p : CodePoint) : escapePoint p ≠ [] := by
  rcases escapePoint_cases p with ⟨h, -⟩ | ⟨e, -, h, -⟩
  · simp [h]
  · simp [← h, Escape.points_eq]

theorem eq_append_of_fragment {run rest ps : List CodePoint}
    (hrun : ∀ p ∈ run, p ≠ CodePoint.ofChar '\\')
    (h : run ++ rest = ps.flatMap escapePoint) :
    ∃ ps', ps = run ++ ps' ∧ rest = ps'.flatMap escapePoint := by
  induction run generalizing ps with
  | nil => exact ⟨ps, rfl, h⟩
  | cons q run ih =>
    obtain ⟨hq, hrun⟩ := List.forall_mem_cons.1 hrun
    cases ps with
    | nil => cases h
    | cons p ps =>
      rcases escapePoint_cases p with ⟨hself, -⟩ | ⟨e, -, hpoints, -⟩
      · rw [List.flatMap_cons, hself] at h
        obtain ⟨rfl, hafter⟩ := List.cons.inj h
        obtain ⟨ps', rfl, hrest⟩ := ih hrun hafter
        exact ⟨ps', rfl, hrest⟩
      · rw [List.flatMap_cons, ← hpoints, Escape.points_eq] at h
        exact absurd (List.cons.inj h).1 hq

theorem eq_cons_of_escape {e : Escape} {rest ps : List CodePoint}
    (h : e.points ++ rest = ps.flatMap escapePoint) :
    ∃ p ps', ps = p :: ps' ∧ Literal.decodeEscape e.text = ⟨[p]⟩ ∧
      rest = ps'.flatMap escapePoint := by
  cases ps with
  | nil => simp [Escape.points_eq] at h
  | cons p ps =>
    rw [List.flatMap_cons] at h
    have hhead : (escapePoint p).head? = some (CodePoint.ofChar '\\') := by
      obtain ⟨q, qs, hp⟩ := List.exists_cons_of_ne_nil (escapePoint_ne_nil p)
      rw [hp, Escape.points_eq] at h
      rw [hp, List.head?_cons, (List.cons.inj h).1]
    obtain ⟨e', hshared, hpoints, hread⟩ := exists_escape_of_head hhead
    rw [← hpoints] at h
    obtain ⟨htext, hrest⟩ := Escape.eq_of_append_eq_append hshared h
    exact ⟨p, ps, rfl, htext ▸ hread, hrest⟩

theorem reading_of_written {pieces : List Piece} {ps : List CodePoint}
    (hfragments : ∀ f, Piece.fragment f ∈ pieces → ∀ p ∈ f.points, p ∉ fragmentStops)
    (h : pieces.flatMap Piece.points = ps.flatMap escapePoint) :
    Text.concat (pieces.map Piece.reading) = ⟨ps⟩ := by
  induction pieces generalizing ps with
  | nil =>
    cases ps with
    | nil => rfl
    | cons p ps =>
      rw [List.flatMap_cons] at h
      exact absurd (List.append_eq_nil_iff.1 h.symm).1 (escapePoint_ne_nil p)
  | cons piece pieces ih =>
    have hrest : ∀ f, Piece.fragment f ∈ pieces → ∀ p ∈ f.points, p ∉ fragmentStops :=
      fun f hf => hfragments f (List.mem_cons_of_mem _ hf)
    rw [List.flatMap_cons] at h
    rw [List.map_cons, Text.concat_cons]
    cases piece with
    | fragment f =>
      have hf : ∀ p ∈ f.points, p ≠ CodePoint.ofChar '\\' := by
        rintro p hp rfl
        exact hfragments f List.mem_cons_self _ hp (by decide)
      obtain ⟨ps', rfl, hps'⟩ := eq_append_of_fragment hf h
      rw [ih hrest hps']
      rfl
    | escape e =>
      obtain ⟨p, ps', rfl, hread, hps'⟩ := eq_cons_of_escape h
      rw [ih hrest hps', Piece.reading, hread]
      rfl

end Json

theorem IsSplit.reading_eq {s : Text} {pieces : List Piece} (h : IsSplit (Json.write s) pieces) :
    Text.concat (pieces.map Piece.reading) = s := by
  obtain ⟨body, hbody, hcut⟩ := h
  rw [Json.write, List.cons_append, List.cons_append, List.cons_inj_right,
    List.append_left_inj] at hbody
  refine Json.reading_of_written (fun f hf => (hcut.fragments f hf).2) ?_
  rw [← hcut.written, hbody]

theorem IsCut.exists_of_points (ps : List CodePoint) :
    ∃ pieces, IsCut (ps.flatMap Json.escapePoint) pieces ∧
      ∀ e, Piece.escape e ∈ pieces → e.isShared = true := by
  induction ps with
  | nil => exact ⟨[], ⟨rfl, by simp, .nil⟩, by simp⟩
  | cons p ps ih =>
    obtain ⟨pieces, hcut, hshared⟩ := ih
    rw [List.flatMap_cons]
    rcases Json.escapePoint_cases p with ⟨hself, hcontrol, hquote, hbackslash⟩ | ⟨e, he, hpoints, -⟩
    · have hstops : ∀ q ∈ fragmentStops, q.val < 0x20 ∨ q.val = 0x22 ∨ q.val = 0x5C :=
        List.forall_iff_forall_mem.1 (by decide)
      have hp : p ∉ fragmentStops := fun hp => by
        have := hstops p hp
        omega
      obtain ⟨pieces', hcut', hescapes⟩ := hcut.cons_point hp
      exact ⟨pieces', by rwa [hself], fun e he => hshared e ((hescapes e).1 he)⟩
    · refine ⟨.escape e :: pieces, hpoints ▸ hcut.cons_escape e, fun e' he' => ?_⟩
      rcases List.mem_cons.1 he' with he' | he'
      · cases he'
        exact he
      · exact hshared e' he'

end ContractInference
