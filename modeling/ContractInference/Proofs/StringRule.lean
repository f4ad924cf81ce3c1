import ContractInference.Language
import ContractInference.Proofs.QuotedText

/-!
# The rule for strings

Where a string literal between double quotes stands in a source text, the rule for strings reads it
to its end and cuts it into its pieces. Positions are described by what stands from there on.
-/

namespace ContractInference.Grammar

variable {source : Array Char} {i : Nat}

theorem getElem?_add_of_drop {cs : List Char} (h : source.toList.drop i = cs) (k : Nat) :
    source[i + k]? = cs[k]? := by
  rw [← h, List.getElem?_drop, Array.getElem?_toList]

theorem drop_add_of_drop {cs rest : List Char} (h : source.toList.drop i = cs ++ rest) :
    source.toList.drop (i + cs.length) = rest := by
  rw [← List.drop_drop, h, List.drop_left]

theorem slice_of_drop {cs rest : List Char} (h : source.toList.drop i = cs ++ rest) :
    slice source i (i + cs.length) = String.ofList cs := by
  rw [slice, Array.toList_extract, List.extract_eq_take_drop, h, Nat.add_sub_cancel_left,
    List.take_left]

theorem runEnd_eq (p : Char → Bool) (i : Nat) :
    runEnd source p i = i + ((source.toList.drop i).takeWhile p).length := by
  fun_induction runEnd source p i with
  | case1 i hi hp ih =>
    have hdrop : source.toList.drop i = source[i] :: source.toList.drop (i + 1) :=
      List.drop_eq_getElem_cons (by simpa using hi)
    rw [ih, hdrop, List.takeWhile_cons_of_pos hp, List.length_cons]
    omega
  | case2 i hi hp =>
    have hdrop : source.toList.drop i = source[i] :: source.toList.drop (i + 1) :=
      List.drop_eq_getElem_cons (by simpa using hi)
    rw [hdrop, List.takeWhile_cons_of_neg hp]
    rfl
  | case3 i hi =>
    rw [List.drop_eq_nil_of_le (by simpa using hi)]
    rfl

theorem isHex_char (d : Digit 16) : isHex d.char = true ∧ d.char ≠ '\x7b' :=
  d.forall_char (P := fun _ c => isHex c = true ∧ c ≠ '\x7b') (by decide)

theorem escapeEnd?_of_isShared {e : Escape} {rest : List Char} (he : e.isShared = true)
    (h : source.toList.drop i = '\\' :: e.tail ++ rest) :
    escapeEnd? source i = some (i + ('\\' :: e.tail).length) := by
  have hat := getElem?_add_of_drop h
  have hbackslash : source[i]? = some '\\' := hat 0
  cases e with
  | character c plain =>
    have hforms : ∀ c ∈ ['"', '\\', '/', 'b', 'f', 'n', 'r', 't'],
        isOctal c = false ∧ c ≠ '\r' ∧ c ≠ '?' := List.forall_iff_forall_mem.1 (by decide)
    have hshort : c ∈ ['"', '\\', '/', 'b', 'f', 'n', 'r', 't'] := by
      unfold Escape.isShared Json.shortEscape? at he
      dsimp only at he
      split at he <;> simp_all
    obtain ⟨hoctal, hreturn, hquestion⟩ := hforms c hshort
    obtain ⟨hx, hu⟩ : c ≠ 'x' ∧ c ≠ 'u' := by
      constructor <;> rintro rfl <;> exact plain (by decide)
    have hc : source[i + 1]? = some c := hat 1
    simp [escapeEnd?, hbackslash, hc, hx, hu, hoctal, hreturn, hquestion, Escape.tail]
  | unit a b c d =>
    have hu : source[i + 1]? = some 'u' := hat 1
    have ha : source[i + 2]? = some a.char := hat 2
    have hrun : i + 6 ≤ runEnd source isHex (i + 2) := by
      have hmark : source.toList.drop i =
          ['\\', 'u'] ++ a.char :: b.char :: c.char :: d.char :: rest := h
      have hdigits : source.toList.drop (i + 2) = _ := drop_add_of_drop hmark
      rw [runEnd_eq, hdigits]
      simp [isHex_char]
      omega
    simp [escapeEnd?, pointEscapeEnd?, hbackslash, hu, ha, (isHex_char a).2, hrun, Escape.tail]
  | octal | byte | point | returnFeed | separated => cases he

/-- Drafts that stand one after the other, with nothing between them. -/
def Adjoining : Nat → List Draft → Nat → Prop
  | i, [], j => i = j
  | i, d :: ds, j => d.label.start = i ∧ Adjoining d.label.stop ds j

theorem Adjoining.append {ds es : List Draft} {j k : Nat} (h : Adjoining i ds j)
    (h' : Adjoining j es k) : Adjoining i (ds ++ es) k := by
  induction ds generalizing i with
  | nil => exact h ▸ h'
  | cons d ds ih => exact ⟨h.1, ih h.2⟩

theorem weaveAll_of_adjoining {ds : List Draft} {j : Nat} (h : Adjoining i ds j) :
    weaveAll source (some i) ds = ds.map (weave source) := by
  induction ds generalizing i with
  | nil => rw [weaveAll, List.map_nil]
  | cons d ds ih =>
    obtain ⟨rfl, h⟩ := h
    rw [weaveAll, ih h, commentNodes, Nat.sub_self]
    rfl

/-- A character that can stand in a fragment between double quotes. -/
def isPlain (c : Char) : Bool := !(c = '"' || c = '\\' || c = '\n' || c = '\r')

theorem isPlain_of_not_stop {c : Char} (h : CodePoint.ofChar c ∉ fragmentStops) :
    isPlain c = true := by
  have hchar : c ∉ ['"', '\\', '\n', '\r'] := fun hc => h (List.mem_map_of_mem hc)
  simpa [isPlain, and_assoc] using hchar

theorem stops_after_fragment {f : Text} {pieces : List Piece} {body : List Char}
    (hmaximal : (Piece.fragment f :: pieces).IsChain fun p q =>
      (p.isFragment && q.isFragment) = false)
    (hbody : body.map CodePoint.ofChar = pieces.flatMap Piece.points) (after : List Char) :
    ∃ c rest, body ++ '"' :: after = c :: rest ∧ isPlain c = false := by
  rcases pieces with _ | ⟨g | e, pieces⟩
  · obtain rfl : body = [] := List.map_eq_nil_iff.1 hbody
    exact ⟨'"', after, rfl, rfl⟩
  · cases hmaximal with
    | cons_cons hnext => cases hnext
  · rw [List.flatMap_cons, Piece.points, Escape.points_eq, List.map_cons, List.cons_append] at hbody
    obtain ⟨c, body, rfl, hc, -⟩ := List.map_eq_cons_iff.1 hbody
    obtain rfl : c = '\\' := CodePoint.ofChar_injective hc
    exact ⟨'\\', body ++ '"' :: after, rfl, rfl⟩

/-- The draft of a piece of a string. -/
def IsDraft (source : Array Char) (p : Piece) (d : Draft) : Prop :=
  d.label.named = true ∧ p.IsNode (weave source d)

theorem isDraft_leaf {p : Piece} {kind : String} {cs rest : List Char}
    (h : source.toList.drop i = cs ++ rest)
    (hnode : p.IsNode (.node { kind, text := String.ofList cs } [])) :
    IsDraft source p (leaf kind true i (i + cs.length)) := by
  refine ⟨rfl, ?_⟩
  rw [leaf, weave, tagOf, slice_of_drop h, weaveAll]
  exact hnode

theorem stringPieces_escape {fuel j k : Nat} {drafts : List Draft} (hi : source[i]? = some '\\')
    (hend : escapeEnd? source i = some j)
    (hrest : stringPieces source '"' fuel j = some (drafts, k)) :
    stringPieces source '"' (fuel + 1) i = some (leaf "escape_sequence" true i j :: drafts, k) := by
  rw [stringPieces, hi]
  simp [hend, hrest]

theorem stringPieces_fragment {fuel j k : Nat} {drafts : List Draft} {c : Char}
    (hi : source[i]? = some c) (hc : isPlain c = true) (hend : runEnd source isPlain i = j)
    (hlt : i < j) (hrest : stringPieces source '"' fuel j = some (drafts, k)) :
    stringPieces source '"' (fuel + 1) i = some (leaf "string_fragment" true i j :: drafts, k) := by
  have hrun : runEnd source (fun c => !(c = '"' || c = '\\' || c = '\n' || c = '\r')) i = j := hend
  obtain ⟨hquote, hbackslash⟩ : c ≠ '"' ∧ c ≠ '\\' := by
    constructor <;> rintro rfl <;> cases hc
  rw [stringPieces, hi]
  dsimp only
  rw [if_neg hquote, if_neg hbackslash, hrun, if_pos hlt, hrest]
  rfl

/-- The pieces of a string are taken one after the other, and each of them as far as it goes. -/
theorem stringPieces_of_isCut {pieces : List Piece} {body after : List Char} {fuel : Nat}
    (hsource : source.toList.drop i = body ++ '"' :: after)
    (hcut : IsCut (body.map CodePoint.ofChar) pieces)
    (hshared : ∀ e, Piece.escape e ∈ pieces → e.isShared = true) (hfuel : pieces.length < fuel) :
    ∃ drafts, stringPieces source '"' fuel i = some (drafts, i + body.length) ∧
      Adjoining i drafts (i + body.length) ∧ List.Forall₂ (IsDraft source) pieces drafts := by
  obtain ⟨hwritten, hfragments, hmaximal⟩ := hcut
  induction pieces generalizing i body fuel with
  | nil =>
    obtain ⟨fuel, rfl⟩ := Nat.exists_eq_add_one_of_ne_zero (Nat.ne_zero_of_lt hfuel)
    obtain rfl : body = [] := List.map_eq_nil_iff.1 hwritten
    have hquote : source[i]? = some '"' := getElem?_add_of_drop hsource 0
    refine ⟨[], ?_, rfl, .nil⟩
    simp [stringPieces, hquote]
  | cons piece pieces ih =>
    obtain ⟨fuel, rfl⟩ := Nat.exists_eq_add_one_of_ne_zero (Nat.ne_zero_of_lt hfuel)
    obtain ⟨start, body, rfl, hstart, hbody⟩ := List.map_eq_append_iff.1 hwritten
    rw [List.append_assoc] at hsource
    -- The other pieces are taken from where the first one ends.
    obtain ⟨drafts, hdrafts, hadjoining, hforall⟩ :=
      ih (drop_add_of_drop hsource) (fun e he => hshared e (List.mem_cons_of_mem _ he))
        (by simpa using hfuel) hbody (fun f hf => hfragments f (List.mem_cons_of_mem _ hf))
        hmaximal.tail
    rw [List.length_append, ← Nat.add_assoc]
    cases piece with
    | fragment f =>
      obtain ⟨hnonempty, hplain⟩ := hfragments f List.mem_cons_self
      have hpoints : start.map CodePoint.ofChar = f.points := hstart
      have hall : ∀ c ∈ start, isPlain c = true := fun c hc =>
        isPlain_of_not_stop (hplain _ (hpoints ▸ List.mem_map_of_mem hc))
      have hrun : runEnd source isPlain i = i + start.length := by
        obtain ⟨c, rest, hrest, hc⟩ := stops_after_fragment hmaximal hbody after
        rw [runEnd_eq, hsource, hrest, List.takeWhile_append_of_pos hall,
          List.takeWhile_cons_of_neg (by simp [hc]), List.append_nil]
      have htext : Text.ofString (String.ofList start) = f := by
        rw [Text.ofString, String.toList_ofList]
        exact congrArg Text.mk hpoints
      obtain ⟨c, cs, rfl⟩ : ∃ c cs, start = c :: cs :=
        List.exists_cons_of_ne_nil fun h => hnonempty (by rw [← hpoints, h]; rfl)
      exact ⟨_, stringPieces_fragment (getElem?_add_of_drop hsource 0)
        (hall c List.mem_cons_self) hrun (by simp) hdrafts, ⟨rfl, hadjoining⟩,
        .cons (isDraft_leaf hsource ⟨rfl, htext⟩) hforall⟩
    | escape e =>
      obtain rfl : start = '\\' :: e.tail :=
        List.map_injective_iff.2 CodePoint.ofChar_injective (hstart.trans e.points_eq)
      have hend := escapeEnd?_of_isShared (hshared e List.mem_cons_self) hsource
      exact ⟨_, stringPieces_escape (getElem?_add_of_drop hsource 0) hend hdrafts,
        ⟨rfl, hadjoining⟩, .cons (isDraft_leaf hsource ⟨rfl, rfl⟩) hforall⟩

theorem bind_of_some {α β : Type} {rule : Rule α} {context : Context} {j : Nat} {a : α}
    (h : rule context i = some (a, j)) (next : α → Rule β) :
    (rule >>= next) context i = next a context j := by
  have hbind : (rule >>= next) context i =
      (rule context i).bind fun r => next r.1 context r.2 := rfl
  rw [hbind, h]
  rfl

variable {context : Context}

theorem token_quote (h : context.source[i]? = some '"') :
    token "\"" context i = some (leaf "\"" false i (i + 1), i + 1) := by
  have hgaps : ∀ fuel, skipGaps context.source fuel i = i := by
    intro fuel
    cases fuel with
    | zero => rfl
    | succ fuel =>
      have hgap : isGap '"' = false := by decide
      simp [skipGaps, h, hgap, commentEnd?]
  have hskip : skip context i = some ((), i) := congrArg (fun k => some ((), k)) (hgaps _)
  have hexactly : exactly "\"" context i = some ((), i + 1) := by
    simp [exactly, exactlyAux, h]
  rw [token, bind_of_some hskip, bind_of_some (rfl : position context i = some (i, i)),
    bind_of_some hexactly]
  rfl

/-- The draft of a string between double quotes. -/
def quoted (i : Nat) (drafts : List Draft) (k : Nat) : Draft :=
  branch "string" (leaf "\"" false i (i + 1) :: drafts ++ [leaf "\"" false k (k + 1)])

theorem string_of_stringPieces {k : Nat} {drafts : List Draft}
    (h : context.source[i]? = some '"')
    (hpieces : stringPieces context.source '"' (context.source.size - (i + 1) + 1) (i + 1) =
      some (drafts, k)) :
    string context i = some (quoted i drafts k, k + 1) := by
  have hquoted : quotedBy '"' context i = some (quoted i drafts k, k + 1) := by
    have htoken : token (String.singleton '"') context i = _ := token_quote h
    rw [quotedBy, bind_of_some htoken,
      bind_of_some (rfl : (read : Rule Context) context (i + 1) = some (context, i + 1)),
      bind_of_some (rfl : position context (i + 1) = some (i + 1, i + 1)), hpieces]
    rfl
  have horElse : string context i =
      (quotedBy '"' context i <|> quotedBy '\'' context i : Option (Draft × Nat)) := rfl
  rw [horElse, hquoted]
  rfl

theorem filter_named_map_weave (ds : List Draft) :
    (ds.map (weave source)).filter (·.label.named) =
      (ds.filter (·.label.named)).map (weave source) := by
  have hnamed : ∀ d : Draft, (weave source d).label.named = d.label.named := by
    rintro ⟨span, children⟩
    rw [weave]
    rfl
  rw [List.filter_map]
  simp only [Function.comp_def, hnamed]

theorem isStringOf_weave {k : Nat} {pieces : List Piece} {drafts : List Draft}
    (hadjoining : Adjoining (i + 1) drafts k)
    (hdrafts : List.Forall₂ (IsDraft source) pieces drafts) :
    IsStringOf (weave source (quoted i drafts k)) pieces := by
  have hchildren : (weave source (quoted i drafts k)).children =
      (leaf "\"" false i (i + 1) :: drafts ++ [leaf "\"" false k (k + 1)]).map
        (weave source) := by
    rw [quoted, branch, weave, Tree.children, List.cons_append, weaveAll, List.map_cons]
    exact congrArg _ (weaveAll_of_adjoining (hadjoining.append (k := k + 1) ⟨rfl, rfl⟩))
  have hnamed : drafts.filter (·.label.named) = drafts := by
    clear hadjoining hchildren
    induction hdrafts with
    | nil => rfl
    | cons hdraft _ ih => rw [List.filter_cons, if_pos hdraft.1, ih]
  refine ⟨by rw [quoted, branch, weave]; rfl, ?_⟩
  rw [Tree.namedChildren, hchildren, filter_named_map_weave, List.cons_append,
    List.filter_cons_of_neg (by simp [leaf, Tree.label]), List.filter_append, hnamed,
    List.filter_cons_of_neg (by simp [leaf, Tree.label]), List.filter_nil, List.append_nil,
    List.forall₂_map_right_iff]
  exact hdrafts.imp fun _ _ h => h.2

theorem text_weave_quoted {k : Nat} (drafts : List Draft) :
    (weave source (quoted i drafts k)).text = slice source i (k + 1) := by
  rw [quoted, branch, weave, List.getLast?_append_of_ne_nil _ (by simp)]
  rfl

/-- Where a literal between double quotes stands, with no escapes but those that JSON has, the rule
reads it to its end and gives the node of its pieces. -/
theorem string_of_isSplit {written after : List Char} {pieces : List Piece}
    (hsource : context.source.toList.drop i = written ++ after)
    (hsplit : IsSplit (Text.ofChars written) pieces)
    (hshared : ∀ e, Piece.escape e ∈ pieces → e.isShared = true) :
    ∃ d, string context i = some (d, i + written.length) ∧
      (weave context.source d).text = String.ofList written ∧
      IsStringOf (weave context.source d) pieces := by
  obtain ⟨body, hbody, hcut⟩ := hsplit
  obtain ⟨cs, rfl, hcs⟩ : ∃ cs, written = '"' :: cs ++ ['"'] ∧ cs.map CodePoint.ofChar = body := by
    obtain ⟨_, _, rfl, hstart, hend⟩ := List.map_eq_append_iff.1 hbody
    obtain ⟨c, cs, rfl, hc, hcs⟩ := List.map_eq_cons_iff.1 hstart
    obtain ⟨c', rest, rfl, hc', hrest⟩ := List.map_eq_cons_iff.1 hend
    obtain rfl := List.map_eq_nil_iff.1 hrest
    rw [CodePoint.ofChar_injective hc, CodePoint.ofChar_injective hc']
    exact ⟨cs, rfl, hcs⟩
  have hopening : context.source.toList.drop i = ['"'] ++ (cs ++ '"' :: after) := by
    simpa using hsource
  have hinner : context.source.toList.drop (i + 1) = cs ++ '"' :: after :=
    drop_add_of_drop hopening
  have hfuel : pieces.length < context.source.size - (i + 1) + 1 := by
    have hle := hcut.length_le
    have hsize := congrArg List.length hinner
    rw [← hcs, List.length_map] at hle
    simp only [List.length_drop, Array.length_toList, List.length_append] at hsize
    omega
  obtain ⟨drafts, hdrafts, hadjoining, hforall⟩ :=
    stringPieces_of_isCut hinner (hcs ▸ hcut) hshared hfuel
  have hlength : i + ('"' :: cs ++ ['"']).length = i + 1 + cs.length + 1 := by simp; omega
  refine ⟨_, ?_, ?_, isStringOf_weave hadjoining hforall⟩
  · rw [hlength]
    exact string_of_stringPieces (getElem?_add_of_drop hsource 0) hdrafts
  · rw [text_weave_quoted, ← hlength]
    exact slice_of_drop hsource

end ContractInference.Grammar
