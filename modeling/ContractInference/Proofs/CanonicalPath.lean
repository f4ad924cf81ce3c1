import ContractInference.Path.Candidates
import ContractInference.Proofs.CleanPath
import ContractInference.Proofs.FieldForm

/-!
# Canonical paths

The text by which a file is known is a normal form: a root of one or two slashes, and names that
are neither empty nor dots. The texts of this form are the fixed points of `Path.key`. All
candidates of a module's name have it, each one once and in the order in which they are generated.
-/

namespace ContractInference

namespace Path

theorem resolveDots_concat (parts : List String) (s : String) :
    resolveDots (parts ++ [s]) =
      if s = ".." then (resolveDots parts).dropLast else resolveDots parts ++ [s] := by
  simp [resolveDots, List.foldl_append]

theorem resolveDots_append_congr {xs ys : List String} (h : resolveDots xs = resolveDots ys)
    (zs : List String) : resolveDots (xs ++ zs) = resolveDots (ys ++ zs) := by
  unfold resolveDots at h ⊢
  rw [List.foldl_append, List.foldl_append, h]

theorem mem_resolveDots {s : String} {parts : List String} (h : s ∈ resolveDots parts) :
    s ∈ parts ∧ s ≠ ".." := by
  induction parts using List.reverseRecOn with
  | nil => cases h
  | append_singleton parts part ih =>
    rw [resolveDots_concat] at h
    split at h
    · obtain ⟨hmem, hne⟩ := ih (List.mem_of_mem_dropLast h)
      exact ⟨List.mem_append_left _ hmem, hne⟩
    · rename_i hpart
      rcases List.mem_append.1 h with h | h
      · obtain ⟨hmem, hne⟩ := ih h
        exact ⟨List.mem_append_left _ hmem, hne⟩
      · obtain rfl := List.mem_singleton.1 h
        exact ⟨by simp, hpart⟩

theorem resolveDots_of_notMem {parts : List String} (h : ".." ∉ parts) :
    resolveDots parts = parts := by
  induction parts using List.reverseRecOn with
  | nil => rfl
  | append_singleton parts part ih =>
    obtain ⟨hparts, hpart⟩ : ".." ∉ parts ∧ ¬ ".." = part := by simpa using h
    rw [resolveDots_concat, if_neg (Ne.symm hpart), ih hparts]

/-- An absolute path whose parts are names only. -/
structure Canonical (p : Path) : Prop where
  clean : p.Clean
  isAbsolute : p.isAbsolute = true
  notUp : ".." ∉ p.parts

theorem Clean.canonical_absolute {p : Path} (h : Clean p) : Canonical p.absolute where
  clean :=
    { root := by
        rcases h.root with hroot | hroot | hroot <;> simp [absolute, hroot]
      names := fun part hpart => h.names part (mem_resolveDots hpart).1
      slashFree := fun part hpart => h.slashFree part (mem_resolveDots hpart).1 }
  isAbsolute := by
    rcases h.root with hroot | hroot | hroot <;> simp [absolute, hroot, Path.isAbsolute]
  notUp := fun hmem => (mem_resolveDots hmem).2 rfl

theorem Canonical.absolute_eq {p : Path} (h : Canonical p) : p.absolute = p := by
  have hroot : p.root.isEmpty = false := by simpa [Path.isAbsolute] using h.isAbsolute
  simp [absolute, hroot, resolveDots_of_notMem h.notUp]

theorem Clean.key_text {p : Path} (h : Clean p) : key p.text = p.absolute.text := by
  rw [key, h.ofString_text]

theorem Canonical.key_text {p : Path} (h : Canonical p) : key p.text = p.text := by
  rw [h.clean.key_text, h.absolute_eq]

/-- The text by which a file is known where relative paths start at a working directory. -/
def keyIn (cwd : Path) (s : String) : String := (cwd.join s).absolute.text

theorem keyIn_root (s : String) : keyIn ⟨"/", []⟩ s = key s := by
  rw [keyIn, key, join]
  split
  case isTrue => rfl
  case isFalse h =>
    have hroot : (ofString s).root.isEmpty = true := by simpa [isAbsolute] using h
    simp [absolute, hroot]

/-- Paths that are taken from a working directory first can be looked at from the root. -/
theorem keyIn_eq_key {cwd : Path} (h : cwd.Clean) (s : String) :
    keyIn cwd s = key (cwd.join s).text :=
  (h.join s).key_text.symm

/-- The normal form of a file's path: after one slash or two there are names with single slashes
between them, and none of them is empty or stands for this or the upper directory. -/
def IsKey (s : String) : Prop :=
  ∃ root parts, (root = "/" ∨ root = "//") ∧
    (∀ part ∈ parts, part ∉ ["", ".", ".."] ∧ '/' ∉ part.toList) ∧
    s = root ++ "/".intercalate parts

theorem Canonical.isKey_text {p : Path} (h : Canonical p) : IsKey p.text := by
  have hroot : p.root = "/" ∨ p.root = "//" := by
    have habsolute := h.isAbsolute
    rcases h.clean.root with hroot | hroot
    · simp [Path.isAbsolute, hroot] at habsolute
    · exact hroot
  refine ⟨p.root, p.parts, hroot, fun part hpart => ?_, text_of_parts (.inr h.isAbsolute) h.clean⟩
  have hname : part ≠ "" ∧ part ≠ "." := by simpa [isName] using h.clean.names part hpart
  have hup : part ≠ ".." := fun heq => h.notUp (heq ▸ hpart)
  exact ⟨by simp [hname, hup], h.clean.slashFree part hpart⟩

theorem IsKey.exists_canonical {s : String} (h : IsKey s) : ∃ p, Canonical p ∧ p.text = s := by
  obtain ⟨root, parts, hroot, hparts, rfl⟩ := h
  have hclean : Clean ⟨root, parts⟩ :=
    { root := .inr hroot
      names := fun part hpart => by
        have hname := (hparts part hpart).1
        simp_all [isName]
      slashFree := fun part hpart => (hparts part hpart).2 }
  have habsolute : Path.isAbsolute ⟨root, parts⟩ = true := by
    rcases hroot with rfl | rfl <;> rfl
  refine ⟨⟨root, parts⟩, ⟨hclean, habsolute, fun hup => ?_⟩, text_of_parts (.inr habsolute) hclean⟩
  simpa using (hparts ".." hup).1

theorem isKey_key (s : String) : IsKey (key s) := (clean_ofString s).canonical_absolute.isKey_text

/-- The normal forms are the fixed points. -/
theorem key_eq_self_iff (s : String) : key s = s ↔ IsKey s := by
  constructor
  · intro h
    exact h ▸ isKey_key s
  · intro h
    obtain ⟨p, hp, rfl⟩ := h.exists_canonical
    exact hp.key_text

theorem key_key (s : String) : key (key s) = key s := (key_eq_self_iff _).2 (isKey_key s)

theorem Clean.parent {p : Path} (h : Clean p) : Clean p.parent where
  root := h.root
  names := fun part hpart => h.names part (List.mem_of_mem_dropLast hpart)
  slashFree := fun part hpart => h.slashFree part (List.mem_of_mem_dropLast hpart)

theorem Clean.slashFree_name {p : Path} (h : Clean p) : '/' ∉ p.name.toList := by
  unfold name
  cases hlast : p.parts.getLast? with
  | none => exact List.not_mem_nil
  | some part => exact h.slashFree part (List.mem_of_getLast? hlast)

theorem mem_stem {p : Path} {c : Char} (h : c ∈ p.stem.toList) : c ∈ p.name.toList := by
  unfold stem splitName at h
  dsimp only at h
  split at h
  · rw [String.toList_ofList] at h
    exact List.mem_of_mem_take h
  · exact h

theorem Clean.withSuffix {p : Path} (h : Clean p) {suffix : String} (hlength : 2 ≤ suffix.length)
    (hslash : '/' ∉ suffix.toList) : Clean (p.withSuffix suffix) := by
  have hname : isName (p.stem ++ suffix) = true := by
    have htwo : 2 ≤ (p.stem ++ suffix).length := by
      rw [String.length_append]
      omega
    have hempty : p.stem ++ suffix ≠ "" := by
      intro heq
      rw [heq] at htwo
      exact absurd htwo (by decide)
    have hdot : p.stem ++ suffix ≠ "." := by
      intro heq
      rw [heq] at htwo
      exact absurd htwo (by decide)
    simp [isName, hempty, hdot]
  have hfree : '/' ∉ (p.stem ++ suffix).toList := by
    rw [String.toList_append, List.mem_append, not_or]
    exact ⟨fun hmem => h.slashFree_name (mem_stem hmem), hslash⟩
  refine ⟨h.root, fun part hpart => ?_, fun part hpart => ?_⟩
  · rcases List.mem_append.1 hpart with hpart | hpart
    · exact h.parent.names part hpart
    · exact List.mem_singleton.1 hpart ▸ hname
  · rcases List.mem_append.1 hpart with hpart | hpart
    · exact h.parent.slashFree part hpart
    · exact List.mem_singleton.1 hpart ▸ hfree

end Path

namespace Candidates

open ContractInference.Path

theorem sourceSuffix_plain {suffix replacement : String}
    (h : replacement ∈ (sourceSuffixes.lookup suffix).getD []) :
    2 ≤ replacement.length ∧ '/' ∉ replacement.toList := by
  have hall : ∀ entry ∈ sourceSuffixes, ∀ s ∈ entry.2, 2 ≤ s.length ∧ '/' ∉ s.toList := by
    decide
  cases hlookup : sourceSuffixes.lookup suffix with
  | none => simp [hlookup] at h
  | some found =>
    rw [hlookup] at h
    obtain ⟨key, hmem⟩ : ∃ key, (key, found) ∈ sourceSuffixes := by
      obtain ⟨before, after, hsplit, -⟩ := List.lookup_eq_some_iff.1 hlookup
      exact ⟨suffix, by simp [hsplit]⟩
    exact hall _ hmem replacement h

theorem clean_of_mem_expand {r : ResolverSettings} {base p : Path} (hbase : base.Clean)
    (h : p ∈ expand r base) : p.Clean := by
  simp only [expand, List.append_assoc, List.mem_append, List.mem_map, List.mem_flatMap] at h
  rcases h with h | ⟨e, -, rfl⟩ | ⟨index, -, e, -, rfl⟩
  · split at h
    · rcases List.mem_cons.1 h with rfl | h
      · exact hbase
      · obtain ⟨replacement, hmem, rfl⟩ := List.mem_map.1 h
        obtain ⟨hlength, hslash⟩ := sourceSuffix_plain hmem
        exact hbase.withSuffix hlength hslash
    · cases h
  · exact clean_ofString _
  · exact hbase.join _

/-- Every path that is generated is clean, whatever the texts of which it is made. -/
theorem clean_generate (r : ResolverSettings) (modulePath fromFile name projectRoot : String) :
    Gives (fun generated => ∀ p ∈ generated, p.Clean)
      (generate r modulePath fromFile name projectRoot) := by
  unfold generate
  dsimp only
  split
  · exact .ok fun p hp => clean_of_mem_expand ((clean_ofString _).parent.join _) hp
  · split
    · intro generated h
      have hfilled : Gives (fun ps => ∀ p ∈ ps, p.Clean) (r.fallbackCandidates.mapM fun template =>
          Path.ofString <$> fillTemplate
            [("dir", .path (ofString (key fromFile)).parent),
              ("root", .path (ofString (key projectRoot))), ("name", .text name)] template) :=
        .mapM fun template _ => .bind_any fun s => .ok (clean_ofString s)
      unfold Except.mapError at h
      split at h
      · cases h
      · rename_i hok
        cases h
        exact hfilled _ hok
    · refine .ok fun p hp => ?_
      obtain ⟨entry, -, hp⟩ := List.mem_flatMap.1 hp
      obtain ⟨dir, -, hp⟩ := List.mem_flatMap.1 hp
      exact clean_of_mem_expand (((clean_ofString _).join _).join _) hp

theorem pairwise_eraseDups (keys : List String) :
    keys.eraseDups.Pairwise fun a b => keys.idxOf a < keys.idxOf b := by
  induction keys using List.reverseRecOn with
  | nil => exact .nil
  | append_singleton keys key ih =>
    have hold : keys.eraseDups.Pairwise fun a b =>
        (keys ++ [key]).idxOf a < (keys ++ [key]).idxOf b := by
      refine ih.imp_of_mem fun {a b} ha hb hab => ?_
      rwa [List.idxOf_append_of_mem (List.mem_eraseDups.1 ha),
        List.idxOf_append_of_mem (List.mem_eraseDups.1 hb)]
    rw [List.eraseDups_append, List.removeAll]
    by_cases hmem : key ∈ keys
    · rwa [List.filter_cons_of_neg (by simpa using hmem), List.filter_nil, List.eraseDups_nil,
        List.append_nil]
    · rw [List.filter_cons_of_pos (by simpa using hmem), List.filter_nil, List.eraseDups_cons,
        List.filter_nil, List.eraseDups_nil, List.pairwise_append]
      refine ⟨hold, List.pairwise_singleton _ _, fun a ha b hb => ?_⟩
      have hlt : keys.idxOf a < keys.length :=
        List.idxOf_lt_length_iff.2 (List.mem_eraseDups.1 ha)
      obtain rfl := List.mem_singleton.1 hb
      rw [List.idxOf_append_of_mem (List.mem_eraseDups.1 ha), List.idxOf_append, if_neg hmem]
      omega

/-- Whenever a module's name has candidates, they are different normal forms of absolute paths, and
they are the keys of the generated paths in the order in which these first occur. Every key is a
normal form, and these are the fixed points. -/
theorem paths_canonical {r : ResolverSettings} {modulePath fromFile name projectRoot : String}
    {keys : List String} (h : paths r modulePath fromFile name projectRoot = .ok keys) :
    keys.Nodup ∧
    (∀ k ∈ keys, IsKey k ∧ (ofString k).isAbsolute = true ∧ (ofString k).text = k ∧ key k = k) ∧
    (∃ generated, generate r modulePath fromFile name projectRoot = .ok generated ∧
      (∀ k, k ∈ keys ↔ ∃ p ∈ generated, key p.text = k) ∧
      keys.Pairwise fun a b => (generated.map (key ·.text)).idxOf a <
        (generated.map (key ·.text)).idxOf b) ∧
    ∀ s, IsKey (key s) ∧ key (key s) = key s ∧ (key s = s ↔ IsKey s) := by
  have hclean := clean_generate r modulePath fromFile name projectRoot
  unfold paths at h
  cases hgenerate : generate r modulePath fromFile name projectRoot with
  | error e =>
    rw [hgenerate] at h
    cases h
  | ok generated =>
    rw [hgenerate] at h
    have hclean := hclean generated hgenerate
    have hkeys : keys = (generated.map (key ·.text)).eraseDups := by
      have hmap : generated.map (·.absolute.text) = generated.map (key ·.text) :=
        List.map_congr_left fun p hp => (hclean p hp).key_text.symm
      rw [← hmap]
      exact (Except.ok.inj h).symm
    have hpairs : keys.Pairwise fun a b =>
        (generated.map (key ·.text)).idxOf a < (generated.map (key ·.text)).idxOf b := by
      rw [hkeys]
      exact pairwise_eraseDups _
    refine ⟨?_, fun k hk => ?_, ⟨generated, rfl, fun k => ?_, hpairs⟩, fun s => ?_⟩
    · refine hpairs.imp fun {a b} hlt heq => ?_
      rw [heq] at hlt
      exact Nat.lt_irrefl _ hlt
    · rw [hkeys, List.mem_eraseDups] at hk
      obtain ⟨p, hp, rfl⟩ := List.mem_map.1 hk
      have hcanonical := (hclean p hp).canonical_absolute
      rw [(hclean p hp).key_text]
      refine ⟨hcanonical.isKey_text, ?_, ?_, hcanonical.key_text⟩
      · rw [hcanonical.clean.ofString_text]
        exact hcanonical.isAbsolute
      · rw [hcanonical.clean.ofString_text]
    · rw [hkeys, List.mem_eraseDups, List.mem_map]
    · exact ⟨isKey_key s, key_key s, key_eq_self_iff s⟩

/-- An alias that stands for one directory twice. -/
def twice : ResolverSettings :=
  { aliases := [("@/", ["src", "./src/."])], extensions := [".ts"] }

theorem paths_canonical_twice :
    ∃ keys, paths twice "@/../user" "/app/a.ts" "User" "//srv//app/./" = .ok keys ∧
      keys = ["//srv/app/user.ts", "//srv/app/user/index.ts"] ∧ keys.Nodup ∧
      (∀ k ∈ keys, IsKey k ∧ key k = k) ∧
      ∃ generated, generate twice "@/../user" "/app/a.ts" "User" "//srv//app/./" = .ok generated ∧
        generated.map text = ["//srv/app/src/../user.ts", "//srv/app/src/../user/index.ts",
          "//srv/app/src/../user.ts", "//srv/app/src/../user/index.ts"] ∧
        ∀ k, k ∈ keys ↔ ∃ p ∈ generated, key p.text = k := by
  obtain ⟨hread, hmade⟩ : (paths twice "@/../user" "/app/a.ts" "User" "//srv//app/./").toOption =
        some ["//srv/app/user.ts", "//srv/app/user/index.ts"] ∧
      (generate twice "@/../user" "/app/a.ts" "User" "//srv//app/./").toOption.map (List.map text) =
        some ["//srv/app/src/../user.ts", "//srv/app/src/../user/index.ts",
          "//srv/app/src/../user.ts", "//srv/app/src/../user/index.ts"] := by
    decide +kernel
  cases hpaths : paths twice "@/../user" "/app/a.ts" "User" "//srv//app/./" with
  | error e =>
    rw [hpaths] at hread
    cases hread
  | ok keys =>
    rw [hpaths] at hread
    obtain ⟨hnodup, hkeys, ⟨generated, hgenerate, hmem, -⟩, -⟩ := paths_canonical hpaths
    rw [hgenerate] at hmade
    refine ⟨keys, rfl, Option.some.inj hread, hnodup, fun k hk => ?_, generated, hgenerate,
      Option.some.inj hmade, hmem⟩
    obtain ⟨hkey, -, -, hfixed⟩ := hkeys k hk
    exact ⟨hkey, hfixed⟩

end Candidates

end ContractInference
