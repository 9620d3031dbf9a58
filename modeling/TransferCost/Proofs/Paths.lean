import TransferCost.Proofs.Files

/-!
# Where exported files can meet

The user names the files of a run, and two names may lead to the same place: `a`, `./a.json` and
`x/../a.json` are one file.  This file says which exports can never meet, and what follows.

## 1.  The last name of a path

What a path ends in is what its place ends in (`exists_name_of_site`), so files with different
extensions never meet, whatever the directory and the names are (`apart_of_endings`).

## 2.  Files that never meet

Written one after the other, they have different paths (`nodup_of_apart`) and all of them are left
with their own text (`read_writeAll_of_apart`).

## 3.  Exported files

The path of an export ends in its extension, with or without a directory in front.
-/

namespace TransferCost
namespace Files

/-! ## 1.  The last name of a path -/

/-- What stands behind the last slash keeps what the text ends in. -/
theorem exists_splitOn_append (cs : List Char) {s : List Char} (hs : '/' ∉ s) :
    ∃ front last, (cs ++ s).splitOn '/' = front ++ [last] ∧ s <:+ last := by
  induction cs with
  | nil =>
    refine ⟨[], s, ?_, List.suffix_rfl⟩
    exact List.splitOn_eq_singleton hs
  | cons c cs ih =>
    obtain ⟨front, last, hsplit, hlast⟩ := ih
    have hcons : (c :: cs ++ s).splitOn '/' =
        if c = '/' then [] :: (front ++ [last]) else (front ++ [last]).modifyHead (c :: ·) := by
      rw [← hsplit, List.cons_append, List.splitOn_cons_eq_if_modifyHead]
      simp only [beq_iff_eq]
    rw [hcons]
    by_cases hc : c = '/'
    · rw [if_pos hc]
      exact ⟨[] :: front, last, rfl, hlast⟩
    · rw [if_neg hc]
      cases front with
      | nil => exact ⟨[], c :: last, rfl, hlast.trans (List.suffix_cons c last)⟩
      | cons f front => exact ⟨(c :: f) :: front, last, rfl, hlast⟩

/-- The last name of a path ends in what the path ends in. -/
theorem exists_names {path : String} {s : List Char} (hs : '/' ∉ s) (hne : s ≠ [])
    (h : s <:+ path.toList) : ∃ name outer, (Path.ofString path).names = name :: outer ∧
      (Path.ofString path).endsInSlash = false ∧ s <:+ name.toList := by
  obtain ⟨cs, hcs⟩ := h
  obtain ⟨front, last, hsplit, hlast⟩ := exists_splitOn_append cs hs
  have hlastne : last ≠ [] := by
    rintro rfl
    exact hne (List.suffix_nil.mp hlast)
  refine ⟨String.ofList last, ((front.filter (· ≠ [])).map String.ofList).reverse, ?_, ?_, ?_⟩
  · unfold Path.ofString
    dsimp only
    rw [← hcs, hsplit, List.filter_append, List.map_append, List.reverse_append]
    simp [hlastne]
  · unfold Path.ofString
    dsimp only
    rw [← hcs, List.getLast?_append_of_ne_nil _ hne]
    refine decide_eq_false fun hslash => hs ?_
    exact List.mem_of_getLast? hslash
  · rw [String.toList_ofList]
    exact hlast

namespace FileTree

variable {t : FileTree} {path path' : String} {l : Location} {s s' : List Char}

theorem ofString_of_parse {p : Path} (h : parse path = .ok p) : Path.ofString path = p := by
  unfold parse at h
  split_ifs at h
  exact Except.ok.inj h

theorem child_eq_cons {k : Location} {name : String} (h : t.child k name = .ok l)
    (hdot : name ≠ ".") (hdots : name ≠ "..") : l = name :: k := by
  have hk := directory_of_child h
  unfold child at h
  rw [hk] at h
  dsimp only at h
  rw [if_neg hdot, if_neg hdots] at h
  split_ifs at h
  exact (Except.ok.inj h).symm

/-- **What a path ends in is what its place ends in**, if it is no `.` or `..`. -/
theorem exists_name_of_site (h : t.site path = .ok l) (hs : '/' ∉ s) (hlong : 2 < s.length)
    (hpath : s <:+ path.toList) : ∃ name k, l = name :: k ∧ s <:+ name.toList := by
  obtain ⟨p, hp, htarget, -⟩ := site_eq_ok_iff.mp h
  obtain ⟨name, outer, hnames, hslash, hname⟩ :=
    exists_names hs (List.ne_nil_of_length_pos (by omega)) hpath
  have hstays : name ≠ "." ∧ name ≠ ".." := by
    have hlength := hname.length_le
    constructor
    · rintro rfl
      exact absurd (hlong.trans_le hlength) (by decide)
    · rintro rfl
      exact absurd (hlong.trans_le hlength) (by decide)
  obtain rfl := ofString_of_parse hp
  rw [namesToFile, hslash, hnames] at htarget
  obtain ⟨k, -, hchild⟩ := target_cons_eq_ok_iff.mp htarget
  exact ⟨name, k, child_eq_cons hchild hstays.1 hstays.2, hname⟩

/-- Two files never meet.  If both can be written, then it is at different places. -/
def Apart (t : FileTree) (path path' : String) : Prop :=
  ∀ l, t.site path = .ok l → t.site path' ≠ .ok l

theorem Apart.symm (h : Apart t path path') : Apart t path' path :=
  fun l hl' hl => h l hl hl'

/-- Files with different endings never meet. -/
theorem apart_of_endings (hs : '/' ∉ s) (hlong : 2 < s.length) (hpath : s <:+ path.toList)
    (hs' : '/' ∉ s') (hlong' : 2 < s'.length) (hpath' : s' <:+ path'.toList)
    (hne : ¬ s <:+ s') (hne' : ¬ s' <:+ s) : Apart t path path' := by
  intro l hl hl'
  obtain ⟨name, k, rfl, hname⟩ := exists_name_of_site hl hs hlong hpath
  obtain ⟨name', k', hk, hname'⟩ := exists_name_of_site hl' hs' hlong' hpath'
  obtain ⟨rfl, rfl⟩ := List.cons.inj hk
  rcases List.suffix_or_suffix_of_suffix hname hname' with hsuffix | hsuffix
  · exact hne hsuffix
  · exact hne' hsuffix

/-! ## 2.  Files that never meet -/

section Several

variable {files : List (String × String)}

/-- A file has one site at most, so two files that never meet have different paths. -/
theorem nodup_of_apart (hadmits : ∀ f ∈ files, t.admits f.1 = true)
    (hapart : files.Pairwise fun f g => t.Apart f.1 g.1) : (files.map (·.1)).Nodup := by
  refine List.pairwise_map.mpr (hapart.imp_of_mem ?_)
  intro f g hf _ hfg hsame
  obtain ⟨l, hl⟩ := admits_iff.mp (hadmits f hf)
  exact hfg l hl (hsame ▸ hl)

/-- **Files that never meet are all read as they were written.** -/
theorem read_writeAll_of_apart (hadmits : ∀ f ∈ files, t.admits f.1 = true)
    (hapart : files.Pairwise fun f g => t.Apart f.1 g.1) {f : String × String} (hf : f ∈ files) :
    (t.writeAll files).read f.1 = .ok f.2 := by
  obtain ⟨l, hl⟩ := admits_iff.mp (hadmits f hf)
  have hsite := (sameDirectories_writeAll t files).site_eq_ok_iff.mpr hl
  obtain ⟨done, rest, rfl⟩ := List.append_of_mem hf
  have hrest := (List.pairwise_cons.mp (List.pairwise_append.mp hapart).2.1).1
  exact read_of_site hsite (find?_writeAll_append hl fun g hg => hrest g hg l hl)

end Several

end FileTree

/-! ## 3.  Exported files -/

theorem suffix_withExtension (name ext : String) :
    ('.' :: ext.toList) <:+ (withExtension name ext).toList := by
  unfold withExtension
  by_cases h : ('.' :: ext.toList).isSuffixOf name.toList = true
  · rw [if_pos h]
    exact List.isSuffixOf_iff_suffix.mp h
  · rw [if_neg h, String.toList_append, String.toList_append, List.append_assoc]
    exact List.suffix_append _ _

theorem suffix_join (directory path : String) : path.toList <:+ (join directory path).toList := by
  unfold join
  split_ifs
  · exact List.suffix_rfl
  · rw [String.toList_append]
    exact List.suffix_append _ _
  · rw [String.toList_append]
    exact List.suffix_append _ _

/-- The path has this extension. -/
def HasExtension (path ext : String) : Prop :=
  ('.' :: ext.toList) <:+ path.toList

/-- The path of an export has its extension. -/
theorem hasExtension_exported (directory name ext : String) :
    HasExtension (exported directory name ext) ext :=
  (suffix_withExtension name ext).trans (suffix_join directory _)

/-- No extension ends in another one that holds no point itself. -/
theorem not_suffix_of_ne {ext ext' : String} (hdot : '.' ∉ ext'.toList) (hne : ext ≠ ext') :
    ¬ ('.' :: ext.toList) <:+ ('.' :: ext'.toList) := by
  intro h
  rcases List.suffix_cons_iff.mp h with hsame | hinside
  · exact hne (String.toList_inj.mp (List.cons.inj hsame).2)
  · exact hdot (hinside.subset List.mem_cons_self)

/-- The extensions of exports: long enough not to be taken for a step up, without points and
slashes. -/
structure IsExtension (ext : String) : Prop where
  long : 2 ≤ ext.toList.length
  dot : '.' ∉ ext.toList
  slash : '/' ∉ ext.toList

theorem isExtension_csv : IsExtension "csv" :=
  ⟨by decide, by decide, by decide⟩

theorem isExtension_json : IsExtension "json" :=
  ⟨by decide, by decide, by decide⟩

theorem isExtension_md : IsExtension "md" :=
  ⟨by decide, by decide, by decide⟩

/-- **Files with different extensions never meet.** -/
theorem FileTree.apart_of_extensions {t : FileTree} {path path' ext ext' : String}
    (hext : IsExtension ext) (hext' : IsExtension ext') (hne : ext ≠ ext')
    (h : HasExtension path ext) (h' : HasExtension path' ext') : t.Apart path path' := by
  have hslash {ext : String} (hext : IsExtension ext) : '/' ∉ '.' :: ext.toList := by
    rw [List.mem_cons]
    exact not_or_intro (by decide) hext.slash
  have hlong {ext : String} (hext : IsExtension ext) : 2 < ('.' :: ext.toList).length := by
    have := hext.long
    rw [List.length_cons]
    omega
  exact apart_of_endings (hslash hext) (hlong hext) h (hslash hext') (hlong hext') h'
    (not_suffix_of_ne hext'.dot hne) (not_suffix_of_ne hext.dot hne.symm)

end Files
end TransferCost
