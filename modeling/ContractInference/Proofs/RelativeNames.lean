import ContractInference.Proofs.CanonicalPath

/-!
# What relative names stand for

A relative name is seen from the directory of the importing file. Its candidates are made by
writing after the path it leads to, before the dots in that path are resolved. They depend on the
last part of that path and on the directory before it. Two names that lead to the same place
therefore have the same candidates unless one of them ends in two dots: then the extensions are
written after the dots, and the candidates with an extension are those of another place.
-/

namespace ContractInference

namespace Path

/-- The paths have the same last part, and the same directory is before it. -/
structure Alike (p q : Path) : Prop where
  directory : p.parent.absolute = q.parent.absolute
  name : p.name = q.name

theorem Clean.name_ne_empty {p : Path} (h : Clean p) {init : List String} {last : String}
    (hparts : p.parts = init ++ [last]) : last ≠ "" := by
  have hname := h.names last (by simp [hparts])
  rintro rfl
  cases hname

theorem Alike.cases {p q : Path} (h : Alike p q) (hp : Clean p) (hq : Clean q)
    (hroot : p.root = q.root) :
    p = q ∨ ∃ init init' last, p.parts = init ++ [last] ∧ q.parts = init' ++ [last] ∧
      resolveDots init = resolveDots init' := by
  have hname := h.name
  have hdirectory : resolveDots p.parts.dropLast = resolveDots q.parts.dropLast :=
    congrArg Path.parts h.directory
  rcases List.eq_nil_or_concat' p.parts with hp₀ | ⟨init, last, hp₁⟩ <;>
    rcases List.eq_nil_or_concat' q.parts with hq₀ | ⟨init', last', hq₁⟩
  · left
    obtain ⟨root, parts⟩ := p
    obtain ⟨root', parts'⟩ := q
    simp_all
  · simp only [Path.name, hp₀, hq₁] at hname
    exact absurd (by simpa using hname.symm) (hq.name_ne_empty hq₁)
  · simp only [Path.name, hp₁, hq₀] at hname
    exact absurd (by simpa using hname) (hp.name_ne_empty hp₁)
  · right
    obtain rfl : last = last' := by simpa [Path.name, hp₁, hq₁] using hname
    rw [hp₁, hq₁, List.dropLast_concat, List.dropLast_concat] at hdirectory
    exact ⟨init, init', last, hp₁, hq₁, hdirectory⟩

theorem exists_parts_of_name {p : Path} {last : String} (h : p.name = last) (hne : last ≠ "") :
    ∃ init, p.parts = init ++ [last] := by
  rcases List.eq_nil_or_concat' p.parts with hp₀ | ⟨init, last', hp₁⟩
  · exact absurd (by simpa [name, hp₀] using h.symm) hne
  · obtain rfl : last' = last := by simpa [name, hp₁] using h
    exact ⟨init, hp₁⟩

theorem absolute_congr {p q : Path} (hroot : p.root = q.root)
    (hparts : resolveDots p.parts = resolveDots q.parts) : p.absolute = q.absolute := by
  simp [absolute, hroot, hparts]

section

variable {p q : Path} (h : Alike p q) (hp : Clean p) (hq : Clean q) (hroot : p.root = q.root)

include h hp hq hroot

theorem Alike.absolute_eq : p.absolute = q.absolute := by
  rcases h.cases hp hq hroot with rfl | ⟨init, init', last, hp₁, hq₁, hinit⟩
  · rfl
  · refine absolute_congr hroot ?_
    rw [hp₁, hq₁]
    exact resolveDots_append_congr hinit _

theorem Alike.absolute_text_append (s : String) :
    (ofString (p.text ++ s)).absolute = (ofString (q.text ++ s)).absolute := by
  rcases h.cases hp hq hroot with rfl | ⟨init, init', last, hp₁, hq₁, hinit⟩
  · rfl
  · rw [hp.ofString_text_append hp₁, hq.ofString_text_append hq₁]
    exact absolute_congr hroot (resolveDots_append_congr hinit _)

omit hp hq in
theorem Alike.absolute_withSuffix (suffix : String) :
    (p.withSuffix suffix).absolute = (q.withSuffix suffix).absolute := by
  have hstem : p.stem = q.stem := by rw [stem, stem, h.name]
  refine absolute_congr hroot ?_
  rw [withSuffix, withSuffix, hstem]
  exact resolveDots_append_congr (congrArg Path.parts h.directory) _

theorem Alike.absolute_join (s : String) : (p.join s).absolute = (q.join s).absolute := by
  rw [join, join]
  split
  · rfl
  · exact absolute_congr hroot
      (resolveDots_append_congr (congrArg Path.parts (h.absolute_eq hp hq hroot)) _)

end

/-- Paths to the same place are alike if neither ends in two dots. -/
theorem alike_of_absolute_eq {p q : Path} (hp : p.name ≠ "..") (hq : q.name ≠ "..")
    (h : p.absolute = q.absolute) : Alike p q := by
  have hroot : (if p.root.isEmpty then "/" else p.root) = if q.root.isEmpty then "/" else q.root :=
    congrArg Path.root h
  have hparts : resolveDots p.parts = resolveDots q.parts := congrArg Path.parts h
  have hlast : ∀ {r : Path} {init : List String} {last : String}, r.name ≠ ".." →
      r.parts = init ++ [last] → resolveDots r.parts = resolveDots init ++ [last] := by
    intro r init last hname hr
    have hne : last ≠ ".." := by simpa [name, hr] using hname
    rw [hr, resolveDots_concat, if_neg hne]
  have halike : resolveDots p.parts.dropLast = resolveDots q.parts.dropLast → p.name = q.name →
      Alike p q := by
    intro hdirectory hname
    exact ⟨congrArg₂ Path.mk hroot hdirectory, hname⟩
  rcases List.eq_nil_or_concat' p.parts with hp₀ | ⟨init, last, hp₁⟩ <;>
    rcases List.eq_nil_or_concat' q.parts with hq₀ | ⟨init', last', hq₁⟩
  · exact halike (by rw [hp₀, hq₀]) (by rw [name, name, hp₀, hq₀])
  · rw [hlast hq hq₁, hp₀] at hparts
    simp [resolveDots] at hparts
  · rw [hlast hp hp₁, hq₀] at hparts
    simp [resolveDots] at hparts
  · rw [hlast hp hp₁, hlast hq hq₁] at hparts
    obtain ⟨hinit, hone⟩ := List.append_inj' hparts rfl
    obtain rfl := List.singleton_inj.1 hone
    exact halike (by rw [hp₁, hq₁, List.dropLast_concat, List.dropLast_concat, hinit])
      (by simp [name, hp₁, hq₁])

end Path

namespace Candidates

open ContractInference.Path

/-- The path that a relative name leads to, from the directory of a file. -/
def base (fromFile modulePath : String) : Path :=
  (ofString (key fromFile)).parent.join modulePath

theorem paths_of_isRelative (r : ResolverSettings) (fromFile name projectRoot : String)
    {modulePath : String} (h : isRelative modulePath = true) :
    paths r modulePath fromFile name projectRoot =
      .ok ((expand r (base fromFile modulePath)).map (·.absolute.text)).eraseDups := by
  simp only [paths, generate, h, if_true]
  rfl

theorem absolute_expand {p q : Path} (h : Alike p q) (hp : p.Clean) (hq : q.Clean)
    (hroot : p.root = q.root) (r : ResolverSettings) :
    (expand r p).map (·.absolute) = (expand r q).map (·.absolute) := by
  have hsuffix : p.suffix = q.suffix := by rw [suffix, suffix, h.name]
  have hexact : ∀ replacements : List String,
      (p :: replacements.map p.withSuffix).map (·.absolute) =
        (q :: replacements.map q.withSuffix).map (·.absolute) := by
    intro replacements
    simp only [List.map_cons, List.map_map, h.absolute_eq hp hq hroot]
    refine congrArg _ (List.map_congr_left fun s _ => ?_)
    exact h.absolute_withSuffix hroot s
  have htext : (r.extensions.map fun e => ofString (p.text ++ e)).map (·.absolute) =
      (r.extensions.map fun e => ofString (q.text ++ e)).map (·.absolute) := by
    rw [List.map_map, List.map_map]
    exact List.map_congr_left fun e _ => h.absolute_text_append hp hq hroot e
  have hindex : (r.indexNames.flatMap fun index =>
        r.extensions.map fun e => p.join (index ++ e)).map (·.absolute) =
      (r.indexNames.flatMap fun index =>
        r.extensions.map fun e => q.join (index ++ e)).map (·.absolute) := by
    rw [List.map_flatMap, List.map_flatMap]
    refine List.flatMap_congr fun index _ => ?_
    rw [List.map_map, List.map_map]
    exact List.map_congr_left fun e _ => h.absolute_join hp hq hroot (index ++ e)
  simp only [expand, List.map_append, hsuffix, htext, hindex]
  split
  · rw [hexact]
  · rfl

theorem toList_of_isRelative {modulePath : String} (h : isRelative modulePath = true) :
    ∃ cs, modulePath.toList = '.' :: cs := by
  simp only [isRelative, Bool.or_eq_true, beq_iff_eq, String.startsWith_string_iff] at h
  rcases h with ((rfl | rfl) | ⟨rest, h⟩) | ⟨rest, h⟩
  · exact ⟨_, rfl⟩
  · exact ⟨_, rfl⟩
  · exact ⟨_, h.symm⟩
  · exact ⟨_, h.symm⟩

theorem clean_base (fromFile modulePath : String) : (base fromFile modulePath).Clean :=
  (clean_ofString _).parent.join _

theorem base_eq (fromFile : String) {modulePath : String} (h : isRelative modulePath = true) :
    base fromFile modulePath =
      { root := (ofString (key fromFile)).root
        parts := (ofString (key fromFile)).parts.dropLast ++ (ofString modulePath).parts } := by
  obtain ⟨cs, hcs⟩ := toList_of_isRelative h
  have hroot : (ofString modulePath).isAbsolute = false := by
    simp only [Path.isAbsolute, ofString, hcs]
    rfl
  simp only [base, join, parent, hroot, Bool.false_eq_true, if_false]

theorem canonical_file (fromFile : String) : Canonical (ofString (key fromFile)) := by
  rw [key, (clean_ofString fromFile).canonical_absolute.clean.ofString_text]
  exact (clean_ofString fromFile).canonical_absolute

theorem isAbsolute_base (fromFile : String) {modulePath : String}
    (h : isRelative modulePath = true) : (base fromFile modulePath).isAbsolute = true := by
  have hfile := (canonical_file fromFile).isAbsolute
  rw [base_eq fromFile h]
  simpa only [Path.isAbsolute] using hfile

/-- The path ends in two dots exactly if the name does: the directory of a file does not. -/
theorem name_base (fromFile : String) {modulePath : String} (h : isRelative modulePath = true) :
    (base fromFile modulePath).name = ".." ↔ (ofString modulePath).name = ".." := by
  have hcanonical := canonical_file fromFile
  rw [base_eq fromFile h]
  generalize ofString (key fromFile) = file at hcanonical
  generalize ofString modulePath = relative
  rcases List.eq_nil_or_concat' relative.parts with hparts | ⟨init, last, hparts⟩
  · simp only [name, hparts, List.append_nil]
    refine iff_of_false (fun hup => ?_) (by simp)
    cases hlast : file.parts.dropLast.getLast? with
    | none => simp [hlast] at hup
    | some part =>
      obtain rfl : part = ".." := by simpa [hlast] using hup
      exact hcanonical.notUp (List.mem_of_mem_dropLast (List.mem_of_getLast? hlast))
  · simp [name, hparts]

/-- A dot, and no slash after it. -/
def IsExtension (e : String) : Prop := (∃ cs, e.toList = '.' :: cs) ∧ '/' ∉ e.toList

/-- The candidate that is tried first, if `e` is the first extension. -/
def first (r : ResolverSettings) (e : String) (p : Path) : Path :=
  if r.extensions.contains (lowercase p.suffix) then p else ofString (p.text ++ e)

theorem head?_expand {r : ResolverSettings} {e : String} {es : List String}
    (h : r.extensions = e :: es) (p : Path) : (expand r p).head? = some (first r e p) := by
  unfold expand first
  dsimp only
  split
  · rfl
  · rw [h]
    rfl

theorem absolute_first_eq {r : ResolverSettings} {e : String} {es : List String}
    (hr : r.extensions = e :: es) {p q : Path} (hp : p.Clean) (hq : q.Clean)
    (h : ((expand r p).map (·.absolute.text)).eraseDups =
      ((expand r q).map (·.absolute.text)).eraseDups) :
    (first r e p).absolute = (first r e q).absolute := by
  have hhead : ∀ {t : Path}, t.Clean → ∃ rest, (first r e t).Clean ∧
      ((expand r t).map (·.absolute.text)).eraseDups = (first r e t).absolute.text :: rest := by
    intro t ht
    obtain ⟨rest, hrest⟩ := List.head?_eq_some_iff.1 (head?_expand hr t)
    have hclean : (first r e t).Clean := clean_of_mem_expand ht (hrest ▸ List.mem_cons_self)
    rw [hrest, List.map_cons, List.eraseDups_cons]
    exact ⟨_, hclean, rfl⟩
  obtain ⟨rest, hp', hpRest⟩ := hhead hp
  obtain ⟨rest', hq', hqRest⟩ := hhead hq
  rw [hpRest, hqRest] at h
  have htext : (first r e p).absolute.text = (first r e q).absolute.text := (List.cons.inj h).1
  rw [← hp'.canonical_absolute.clean.ofString_text, htext,
    hq'.canonical_absolute.clean.ofString_text]

theorem IsExtension.ne_empty {e : String} (h : IsExtension e) : e ≠ "" := by
  obtain ⟨⟨cs, hcs⟩, -⟩ := h
  rintro rfl
  cases hcs

theorem isName_append {s e : String} (hs : s ≠ "") (he : IsExtension e) :
    isName (s ++ e) = true := by
  have hempty : s ++ e ≠ "" := by simp [hs]
  have hdot : s ++ e ≠ "." := by
    intro heq
    have hlength : s.length + e.length = 1 := by
      rw [← String.length_append, heq]
      rfl
    have hs' : s.length ≠ 0 := by simpa using hs
    have he' : e.length ≠ 0 := by simpa using he.ne_empty
    omega
  simp [isName, hempty, hdot]

theorem append_ne_up {s e : String} (hs : isName s = true) (he : IsExtension e) :
    s ++ e ≠ ".." := by
  intro heq
  have hname : s ≠ "" ∧ s ≠ "." := by simpa [isName] using hs
  obtain ⟨⟨cs, hcs⟩, -⟩ := he
  have hchars : s.toList ++ '.' :: cs = ['.', '.'] := by
    rw [← hcs, ← String.toList_append, heq]
    rfl
  rcases hlist : s.toList with _ | ⟨c, _ | ⟨c', rest⟩⟩
  · exact hname.1 (String.toList_eq_nil_iff.1 hlist)
  · rw [hlist] at hchars
    obtain rfl : c = '.' := (List.cons.inj hchars).1
    exact hname.2 (String.toList_injective hlist)
  · rw [hlist] at hchars
    simp at hchars

theorem absolute_text_append {p : Path} (hp : p.Clean) {init : List String} {last e : String}
    (hparts : p.parts = init ++ [last]) (he : IsExtension e) :
    (ofString (p.text ++ e)).absolute.parts = resolveDots init ++ [last ++ e] := by
  have hname := hp.names last (by simp [hparts])
  have hslash : '/' ∉ (last ++ e).toList := by
    rw [String.toList_append, List.mem_append, not_or]
    exact ⟨hp.slashFree last (by simp [hparts]), he.2⟩
  rw [hp.ofString_text_append hparts,
    filter_pieces_of_name (isName_append (hp.name_ne_empty hparts) he) hslash, absolute]
  dsimp only
  rw [resolveDots_concat, if_neg (append_ne_up hname he)]

section

variable {r : ResolverSettings} {e : String} (hplain : ∀ e ∈ r.extensions, IsExtension e)
  (he : IsExtension e)

include hplain he

/-- After two dots the first extension makes a name of three dots or more. -/
theorem parts_first_of_up {p : Path} (hp : p.Clean) {init : List String}
    (hparts : p.parts = init ++ [".."]) :
    (first r e p).absolute.parts = resolveDots init ++ [".." ++ e] := by
  have hsuffix : lowercase p.suffix = "" := by
    rw [suffix, name, hparts]
    simp only [List.getLast?_append_cons, List.getLast?_singleton, Option.getD_some]
    decide +kernel
  have hnone : ¬ r.extensions.contains (lowercase p.suffix) = true := by
    rw [hsuffix, List.contains_iff_mem]
    exact fun hmem => (hplain "" hmem).ne_empty rfl
  rw [first, if_neg hnone, absolute_text_append hp hparts he]

omit hplain in
theorem eq_of_mem_text_append {q : Path} (hq : q.Clean) (habsolute : q.isAbsolute = true)
    (hparts : q.parts = []) {part : String} (h : part ∈ (ofString (q.text ++ e)).absolute.parts) :
    part = e := by
  have hfree : ∀ rest, e.toList ≠ '/' :: rest := by
    intro rest hrest
    exact he.2 (hrest ▸ List.mem_cons_self)
  have htext : q.text = q.root := by
    rw [text_of_parts (.inr habsolute) hq, hparts]
    simp
  rw [htext, ofString_root_append hq.root hfree, pieces_of_slashFree he.2] at h
  exact List.mem_singleton.1 (List.mem_filter.1 (mem_resolveDots h).1).1

theorem parts_first_ne {p q : Path} (hp : p.Clean) (hq : q.Clean) (habsolute : q.isAbsolute = true)
    (hup : p.name = "..") (hname : q.name ≠ "..") (h : p.absolute = q.absolute) :
    (first r e p).absolute.parts ≠ (first r e q).absolute.parts := by
  obtain ⟨init, hparts⟩ := exists_parts_of_name hup (by decide)
  have hplace : q.absolute.parts = (resolveDots init).dropLast := by
    rw [← h, absolute, hparts]
    exact (resolveDots_concat init "..").trans (if_pos rfl)
  rw [parts_first_of_up hplain he hp hparts, first]
  split
  · -- The path itself is nearer to the root.
    rw [hplace]
    intro heq
    have hlength := congrArg List.length heq
    simp only [List.length_append, List.length_singleton, List.length_dropLast] at hlength
    omega
  · rcases List.eq_nil_or_concat' q.parts with hq₀ | ⟨init', last, hq₁⟩
    · intro heq
      have hpart : ".." ++ e = e :=
        eq_of_mem_text_append he hq habsolute hq₀ (heq ▸ by simp)
      have hlength : (".." ++ e).length = e.length := congrArg String.length hpart
      rw [String.length_append] at hlength
      simp at hlength
    · rw [absolute_text_append hq hq₁ he]
      intro heq
      have hlast : ".." ++ e = last ++ e := by
        simpa using (List.append_inj' heq rfl).2
      refine hname ?_
      simpa [name, hq₁] using hlast.symm

/-- Paths to the same place with the same first candidate are alike. -/
theorem alike_of_first {p q : Path} (hp : p.Clean) (hq : q.Clean) (hp' : p.isAbsolute = true)
    (hq' : q.isAbsolute = true) (h : p.absolute = q.absolute)
    (hfirst : (first r e p).absolute = (first r e q).absolute) : Alike p q := by
  have hparts := congrArg Path.parts hfirst
  by_cases hpUp : p.name = ".." <;> by_cases hqUp : q.name = ".."
  · obtain ⟨init, hp₁⟩ := exists_parts_of_name hpUp (by decide)
    obtain ⟨init', hq₁⟩ := exists_parts_of_name hqUp (by decide)
    rw [parts_first_of_up hplain he hp hp₁, parts_first_of_up hplain he hq hq₁] at hparts
    have hinit : resolveDots init = resolveDots init' := (List.append_inj' hparts rfl).1
    refine ⟨congrArg₂ Path.mk (congrArg Path.root h :) ?_, by rw [hpUp, hqUp]⟩
    rw [parent, parent, hp₁, hq₁, List.dropLast_concat, List.dropLast_concat, hinit]
  · exact absurd hparts (parts_first_ne hplain he hp hq hq' hpUp hqUp h)
  · exact absurd hparts.symm (parts_first_ne hplain he hq hp hp' hqUp hpUp h.symm)
  · exact alike_of_absolute_eq hpUp hqUp h

end

/-- Two relative names that lead to the same place have the same candidates if neither of them ends
in two dots. In general, with one extension at least, they have the same candidates exactly if they
lead to the same last part in the same directory. -/
theorem paths_of_same_place (r : ResolverSettings) (fromFile name projectRoot : String)
    {m₁ m₂ : String} (h₁ : isRelative m₁ = true) (h₂ : isRelative m₂ = true)
    (hplace : key (base fromFile m₁).text = key (base fromFile m₂).text) :
    ((ofString m₁).name ≠ ".." → (ofString m₂).name ≠ ".." →
      paths r m₁ fromFile name projectRoot = paths r m₂ fromFile name projectRoot) ∧
    (r.extensions ≠ [] → (∀ e ∈ r.extensions, IsExtension e) →
      (paths r m₁ fromFile name projectRoot = paths r m₂ fromFile name projectRoot ↔
        Alike (base fromFile m₁) (base fromFile m₂))) := by
  have hc₁ := clean_base fromFile m₁
  have hc₂ := clean_base fromFile m₂
  have hroot : (base fromFile m₁).root = (base fromFile m₂).root := by
    rw [base_eq fromFile h₁, base_eq fromFile h₂]
  have habsolute : (base fromFile m₁).absolute = (base fromFile m₂).absolute := by
    rw [hc₁.key_text, hc₂.key_text] at hplace
    rw [← hc₁.canonical_absolute.clean.ofString_text, hplace,
      hc₂.canonical_absolute.clean.ofString_text]
  have halike : Alike (base fromFile m₁) (base fromFile m₂) →
      paths r m₁ fromFile name projectRoot = paths r m₂ fromFile name projectRoot := by
    intro h
    have hplaces := congrArg (List.map Path.text) (absolute_expand h hc₁ hc₂ hroot r)
    rw [List.map_map, List.map_map] at hplaces
    rw [paths_of_isRelative r fromFile name projectRoot h₁,
      paths_of_isRelative r fromFile name projectRoot h₂]
    exact congrArg (fun keys => Except.ok keys.eraseDups) hplaces
  refine ⟨fun hn₁ hn₂ => halike ?_, fun hne hplain => ⟨fun heq => ?_, halike⟩⟩
  · exact alike_of_absolute_eq (mt (name_base fromFile h₁).1 hn₁) (mt (name_base fromFile h₂).1 hn₂)
      habsolute
  · obtain ⟨e, es, hr⟩ := List.exists_cons_of_ne_nil hne
    rw [paths_of_isRelative r fromFile name projectRoot h₁,
      paths_of_isRelative r fromFile name projectRoot h₂] at heq
    exact alike_of_first hplain (hplain e (hr ▸ List.mem_cons_self)) hc₁ hc₂
      (isAbsolute_base fromFile h₁) (isAbsolute_base fromFile h₂) habsolute
      (absolute_first_eq hr hc₁ hc₂ (Except.ok.inj heq))

theorem paths_of_same_place_detour :
    isRelative "./a/../b.js" = true ∧ isRelative ".//b.js" = true ∧
    key (base "/app/route.ts" "./a/../b.js").text = key (base "/app/route.ts" ".//b.js").text ∧
    (ofString "./a/../b.js").name ≠ ".." ∧ (ofString ".//b.js").name ≠ ".." ∧
    paths {} "./a/../b.js" "/app/route.ts" "B" "/app" =
      paths {} ".//b.js" "/app/route.ts" "B" "/app" ∧
    ((paths {} "./a/../b.js" "/app/route.ts" "B" "/app").toOption.map (List.take 3)) =
      some ["/app/b.js", "/app/b.ts", "/app/b.tsx"] := by
  obtain ⟨h₁, h₂, hplace, hn₁, hn₂, hpaths⟩ :
      isRelative "./a/../b.js" = true ∧ isRelative ".//b.js" = true ∧
      key (base "/app/route.ts" "./a/../b.js").text = key (base "/app/route.ts" ".//b.js").text ∧
      (ofString "./a/../b.js").name ≠ ".." ∧ (ofString ".//b.js").name ≠ ".." ∧
      ((paths {} "./a/../b.js" "/app/route.ts" "B" "/app").toOption.map (List.take 3)) =
        some ["/app/b.js", "/app/b.ts", "/app/b.tsx"] := by
    decide +kernel
  have hsame := (paths_of_same_place {} "/app/route.ts" "B" "/app" h₁ h₂ hplace).1 hn₁ hn₂
  exact ⟨h₁, h₂, hplace, hn₁, hn₂, hsame, hpaths⟩

/-- Both names stand for the directory of the file, and have other candidates. -/
theorem paths_of_detour_up :
    isRelative "." = true ∧ isRelative "./x/.." = true ∧
    (∀ e ∈ ({} : ResolverSettings).extensions, IsExtension e) ∧
    key (base "/app/api/route.ts" ".").text = key (base "/app/api/route.ts" "./x/..").text ∧
    ((paths {} "." "/app/api/route.ts" "U" "/app").toOption.map List.head?) =
      some (some "/app/api.ts") ∧
    ((paths {} "./x/.." "/app/api/route.ts" "U" "/app").toOption.map List.head?) =
      some (some "/app/api/x/...ts") ∧
    paths {} "." "/app/api/route.ts" "U" "/app" ≠
      paths {} "./x/.." "/app/api/route.ts" "U" "/app" := by
  obtain ⟨h₁, h₂, hplace, hdot, hup⟩ : isRelative "." = true ∧ isRelative "./x/.." = true ∧
      key (base "/app/api/route.ts" ".").text = key (base "/app/api/route.ts" "./x/..").text ∧
      ((paths {} "." "/app/api/route.ts" "U" "/app").toOption.map List.head?) =
        some (some "/app/api.ts") ∧
      ((paths {} "./x/.." "/app/api/route.ts" "U" "/app").toOption.map List.head?) =
        some (some "/app/api/x/...ts") := by
    decide +kernel
  refine ⟨h₁, h₂, ?_, hplace, hdot, hup, fun heq => ?_⟩
  · simp [IsExtension]
  · rw [heq, hup] at hdot
    exact absurd hdot (by decide)

end Candidates

end ContractInference
