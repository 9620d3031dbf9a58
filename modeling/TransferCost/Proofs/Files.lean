import Mathlib
import TransferCost.Files.Tree
import TransferCost.Proofs.Logged

/-!
# What a written file changes

A tree of files is changed by writing a file and by making directories.  This file says what either
leaves as it is.

## 1.  The site of a file

`FileTree.site` is the location at which a file with some path is written, or the reason why none
can be.  It does not depend on the text (`write_eq`), and what stands there is read under the same
path (`read_of_site`), and nothing else is (`find?_of_read`).

## 2.  Directories decide

Whether a file can be written, and where, depends on the directories alone.  A file may take the
place of a missing name or of another file, but neither can be walked through, so writing files one
after the other never moves a later one: `SameDirectories.site_eq_ok_iff` is what all statements on
several files rest on.

## 3.  Several files

`FileTree.writeAll` writes what can be written of some files.  A location at which no file is
written keeps what it holds (`find?_writeAll_of_ne`), and of several files at one location the last
one stays (`find?_writeAll_append`).

## 4.  Making directories

`makeDirs` may fail and leave some directories behind, but it puts them only where nothing is:
`onlyDirectories_makeDirs`.
-/

namespace TransferCost
namespace Files
namespace FileTree

variable {t t' : FileTree} {path text : String} {k l start : Location} {name : String}
  {outer names : List String}

/-! ## 1.  The site of a file -/

/-- The location at which a file with this path is written, or the reason why none can be. -/
def site (t : FileTree) (path : String) : Except FileError Location := do
  let p ← parse path
  let l ← t.target (t.start p) (namesToFile p)
  if t.find? l = some .directory then throw .isDirectory
  return l

/-- A file with this path can be written. -/
def admits (t : FileTree) (path : String) : Bool :=
  (t.site path).isOk

theorem admits_iff : t.admits path = true ↔ ∃ l, t.site path = .ok l := by
  unfold admits
  cases t.site path with
  | error e => simp [Except.isOk, Except.toBool]
  | ok l => simp [Except.isOk, Except.toBool]

theorem find?_root (t : FileTree) : t.find? [] = some .directory :=
  if_pos rfl

/-- **A file is put at its site**, whatever its text is. -/
theorem write_eq (t : FileTree) (path text : String) :
    t.write path text = (fun l => t.put l (.file (some text))) <$> t.site path := by
  unfold write site
  cases parse path with
  | error e => rfl
  | ok p =>
    show (t.target (t.start p) (namesToFile p) >>= _) =
      _ <$> (t.target (t.start p) (namesToFile p) >>= _)
    cases t.target (t.start p) (namesToFile p) with
    | error e => rfl
    | ok l =>
      dsimp only [bind, Except.bind]
      rcases t.find? l with _ | _ | text? <;> rfl

theorem site_eq_ok_iff : t.site path = .ok l ↔
    ∃ p, parse path = .ok p ∧ t.target (t.start p) (namesToFile p) = .ok l ∧
      t.find? l ≠ some .directory := by
  unfold site
  rw [bind_eq_ok_iff]
  apply exists_congr
  intro p
  rw [bind_eq_ok_iff]
  refine and_congr_right fun _ => ⟨?_, ?_⟩
  · rintro ⟨k, hk, h⟩
    by_cases hdirectory : t.find? k = some .directory
    · rw [if_pos hdirectory] at h
      exact absurd h (by simp [throw, throwThe, MonadExceptOf.throw, bind, Except.bind])
    · rw [if_neg hdirectory] at h
      obtain rfl : k = l := Except.ok.inj h
      exact ⟨hk, hdirectory⟩
  · rintro ⟨hl, hdirectory⟩
    refine ⟨l, hl, ?_⟩
    rw [if_neg hdirectory]
    rfl

theorem not_directory_of_site (h : t.site path = .ok l) : t.find? l ≠ some .directory := by
  obtain ⟨p, -, -, hl⟩ := site_eq_ok_iff.mp h
  exact hl

theorem ne_nil_of_site (h : t.site path = .ok l) : l ≠ [] := by
  rintro rfl
  exact not_directory_of_site h t.find?_root

theorem directory_of_child (h : t.child k name = .ok l) : t.find? k = some .directory := by
  unfold child at h
  split at h
  · exact absurd h (by simp)
  · exact absurd h (by simp)
  · assumption

theorem follow_cons_eq_ok_iff : t.follow start (name :: outer) = .ok l ↔
    ∃ k, t.follow start outer = .ok k ∧ t.child k name = .ok l ∧ (t.find? l).isSome = true := by
  rw [follow, bind_eq_ok_iff]
  apply exists_congr
  intro k
  rw [bind_eq_ok_iff]
  refine and_congr_right fun _ => ⟨?_, ?_⟩
  · rintro ⟨j, hj, h⟩
    by_cases hsome : (t.find? j).isSome = true
    · rw [if_pos hsome] at h
      obtain rfl : j = l := Except.ok.inj h
      exact ⟨hj, hsome⟩
    · rw [if_neg hsome] at h
      exact absurd h (by simp [throw, throwThe, MonadExceptOf.throw])
  · rintro ⟨hl, hsome⟩
    exact ⟨l, hl, if_pos hsome⟩

theorem target_cons_eq_ok_iff : t.target start (name :: outer) = .ok l ↔
    ∃ k, t.follow start outer = .ok k ∧ t.child k name = .ok l := by
  rw [target, bind_eq_ok_iff]

theorem follow_of_target (h : t.target start names = .ok l) (hl : (t.find? l).isSome = true) :
    t.follow start names = .ok l := by
  cases names with
  | nil => exact h
  | cons name outer =>
    obtain ⟨k, hk, hchild⟩ := target_cons_eq_ok_iff.mp h
    exact follow_cons_eq_ok_iff.mpr ⟨k, hk, hchild, hl⟩

/-- **What stands at the site of a path is read under this path.** -/
theorem read_of_site (h : t.site path = .ok l) (hl : t.find? l = some (.file (some text))) :
    t.read path = .ok text := by
  obtain ⟨p, hp, htarget, -⟩ := site_eq_ok_iff.mp h
  have hfollow := follow_of_target htarget (by rw [hl]; rfl)
  rw [read, bind_eq_ok_iff]
  refine ⟨p, hp, ?_⟩
  rw [bind_eq_ok_iff]
  refine ⟨l, hfollow, ?_⟩
  rw [hl]
  rfl

theorem target_of_follow (h : t.follow start names = .ok l) : t.target start names = .ok l := by
  cases names with
  | nil => exact h
  | cons name outer =>
    obtain ⟨k, hk, hchild, -⟩ := follow_cons_eq_ok_iff.mp h
    exact target_cons_eq_ok_iff.mpr ⟨k, hk, hchild⟩

/-- What is read under a path stands at its site. -/
theorem find?_of_read (h : t.site path = .ok l) (hread : t.read path = .ok text) :
    t.find? l = some (.file (some text)) := by
  obtain ⟨p, hp, htarget, -⟩ := site_eq_ok_iff.mp h
  rw [read, bind_eq_ok_iff] at hread
  obtain ⟨p', hp', hread⟩ := hread
  obtain rfl := Except.ok.inj (hp.symm.trans hp')
  obtain ⟨k, hk, hread⟩ := bind_eq_ok_iff.mp hread
  obtain rfl := Except.ok.inj ((target_of_follow hk).symm.trans htarget)
  rcases hfind : t.find? k with _ | _ | _ | found
  · rw [hfind] at hread
    exact absurd hread (by simp [throw, throwThe, MonadExceptOf.throw])
  · rw [hfind] at hread
    exact absurd hread (by simp [throw, throwThe, MonadExceptOf.throw])
  · rw [hfind] at hread
    exact absurd hread (by simp [throw, throwThe, MonadExceptOf.throw])
  · rw [hfind] at hread
    obtain rfl : found = text := Except.ok.inj hread
    rfl

/-! ## 2.  Directories decide -/

/-- Two trees have the same directories, and the same current directory. -/
structure SameDirectories (t t' : FileTree) : Prop where
  here : t'.here = t.here
  directory : ∀ l, t'.find? l = some .directory ↔ t.find? l = some .directory

namespace SameDirectories

theorem refl (t : FileTree) : SameDirectories t t :=
  ⟨rfl, fun _ => Iff.rfl⟩

theorem symm (h : SameDirectories t t') : SameDirectories t' t :=
  ⟨h.here.symm, fun l => (h.directory l).symm⟩

theorem trans {t'' : FileTree} (h : SameDirectories t t') (h' : SameDirectories t' t'') :
    SameDirectories t t'' :=
  ⟨h'.here.trans h.here, fun l => (h'.directory l).trans (h.directory l)⟩

/-- A name is looked for in directories only. -/
theorem child_eq_ok (h : SameDirectories t t') (hl : t.child k name = .ok l) :
    t'.child k name = .ok l := by
  have hk := directory_of_child hl
  unfold child at hl ⊢
  rw [(h.directory k).mpr hk]
  rwa [hk] at hl

/-- On the way to a directory there are directories only. -/
theorem follow_eq_ok (h : SameDirectories t t') (hl : t.follow start names = .ok l)
    (hdirectory : t.find? l = some .directory) : t'.follow start names = .ok l := by
  induction names generalizing l with
  | nil => exact hl
  | cons name outer ih =>
    obtain ⟨k, hk, hchild, -⟩ := follow_cons_eq_ok_iff.mp hl
    refine follow_cons_eq_ok_iff.mpr
      ⟨k, ih hk (directory_of_child hchild), h.child_eq_ok hchild, ?_⟩
    rw [(h.directory l).mpr hdirectory]
    rfl

theorem target_eq_ok (h : SameDirectories t t') (hl : t.target start names = .ok l) :
    t'.target start names = .ok l := by
  cases names with
  | nil => exact hl
  | cons name outer =>
    obtain ⟨k, hk, hchild⟩ := target_cons_eq_ok_iff.mp hl
    exact target_cons_eq_ok_iff.mpr
      ⟨k, h.follow_eq_ok hk (directory_of_child hchild), h.child_eq_ok hchild⟩

theorem site_eq_ok (h : SameDirectories t t') (hl : t.site path = .ok l) :
    t'.site path = .ok l := by
  obtain ⟨p, hp, htarget, hdirectory⟩ := FileTree.site_eq_ok_iff.mp hl
  have hstart : t'.start p = t.start p := by
    rw [start, start, h.here]
  refine FileTree.site_eq_ok_iff.mpr ⟨p, hp, ?_, fun hl' => hdirectory ((h.directory l).mp hl')⟩
  rw [hstart]
  exact h.target_eq_ok htarget

/-- **Where a file is written depends on the directories alone.** -/
theorem site_eq_ok_iff (h : SameDirectories t t') : t'.site path = .ok l ↔ t.site path = .ok l :=
  ⟨h.symm.site_eq_ok, h.site_eq_ok⟩

theorem admits_eq (h : SameDirectories t t') (path : String) : t'.admits path = t.admits path := by
  rw [Bool.eq_iff_iff, admits_iff, admits_iff]
  exact exists_congr fun l => h.site_eq_ok_iff

end SameDirectories

/-- A file at its site is no directory, and takes the place of none. -/
theorem sameDirectories_put (h : t.site path = .ok l) (text? : Option String) :
    SameDirectories t (t.put l (.file text?)) := by
  refine ⟨rfl, ?_⟩
  intro l'
  rw [find?_put t (ne_nil_of_site h)]
  by_cases hl : l' = l
  · subst hl
    rw [if_pos rfl]
    simpa using not_directory_of_site h
  · rw [if_neg hl]

/-! ## 3.  Several files -/

/-- The tree with a file, if it can be written. -/
def writeIf (t : FileTree) (file : String × String) : FileTree :=
  match t.write file.1 file.2 with
  | .ok t' => t'
  | .error _ => t

/-- The tree with those of some files that can be written. -/
def writeAll (t : FileTree) (files : List (String × String)) : FileTree :=
  files.foldl writeIf t

variable {file : String × String} {files rest : List (String × String)}

theorem writeIf_of_site (h : t.site file.1 = .ok l) :
    t.writeIf file = t.put l (.file (some file.2)) := by
  unfold writeIf
  rw [write_eq, h]
  rfl

theorem writeIf_of_not_admits (h : t.admits file.1 = false) : t.writeIf file = t := by
  unfold writeIf
  rw [write_eq]
  cases hsite : t.site file.1 with
  | error e => rfl
  | ok l =>
    rw [admits_iff.mpr ⟨l, hsite⟩] at h
    exact absurd h (by simp)

theorem sameDirectories_writeIf (t : FileTree) (file : String × String) :
    SameDirectories t (t.writeIf file) := by
  cases hadmits : t.admits file.1 with
  | false =>
    rw [writeIf_of_not_admits hadmits]
    exact .refl t
  | true =>
    obtain ⟨l, hl⟩ := admits_iff.mp hadmits
    rw [writeIf_of_site hl]
    exact sameDirectories_put hl _

/-- **Writing files leaves the directories as they are.** -/
theorem sameDirectories_writeAll (t : FileTree) (files : List (String × String)) :
    SameDirectories t (t.writeAll files) := by
  induction files generalizing t with
  | nil => exact .refl t
  | cons file rest ih => exact (sameDirectories_writeIf t file).trans (ih _)

theorem writeAll_append (t : FileTree) (files rest : List (String × String)) :
    t.writeAll (files ++ rest) = (t.writeAll files).writeAll rest :=
  List.foldl_append

theorem find?_writeIf_of_ne (h : t.site file.1 ≠ .ok l) : (t.writeIf file).find? l = t.find? l := by
  cases hadmits : t.admits file.1 with
  | false => rw [writeIf_of_not_admits hadmits]
  | true =>
    obtain ⟨k, hk⟩ := admits_iff.mp hadmits
    have hne : l ≠ k := by
      rintro rfl
      exact h hk
    rw [writeIf_of_site hk, find?_put t (ne_nil_of_site hk), if_neg hne]

/-- **A location at which no file is written keeps what it holds.** -/
theorem find?_writeAll_of_ne (h : ∀ file ∈ files, t.site file.1 ≠ .ok l) :
    (t.writeAll files).find? l = t.find? l := by
  induction files generalizing t with
  | nil => rfl
  | cons file rest ih =>
    have hsame := sameDirectories_writeIf t file
    have hrest : ∀ f ∈ rest, (t.writeIf file).site f.1 ≠ .ok l := fun f hf hsite =>
      h f (List.mem_cons_of_mem _ hf) (hsame.site_eq_ok_iff.mp hsite)
    show ((t.writeIf file).writeAll rest).find? l = _
    rw [ih hrest, find?_writeIf_of_ne (h file List.mem_cons_self)]

/-- **Of several files at one location the last one stays.** -/
theorem find?_writeAll_append (hfile : t.site file.1 = .ok l)
    (hrest : ∀ f ∈ rest, t.site f.1 ≠ .ok l) :
    (t.writeAll (files ++ file :: rest)).find? l = some (.file (some file.2)) := by
  have hsame := sameDirectories_writeAll t files
  have hsite := hsame.site_eq_ok_iff.mpr hfile
  have hnext := hsame.trans (sameDirectories_writeIf (t.writeAll files) file)
  have hlast : ∀ f ∈ rest, ((t.writeAll files).writeIf file).site f.1 ≠ .ok l := fun f hf hl =>
    hrest f hf (hnext.site_eq_ok_iff.mp hl)
  rw [writeAll_append]
  show (((t.writeAll files).writeIf file).writeAll rest).find? l = _
  rw [find?_writeAll_of_ne hlast, writeIf_of_site hsite, find?_put _ (ne_nil_of_site hsite),
    if_pos rfl]

/-! ## 4.  Making directories -/

/-- The second tree has all that the first one has, in its place, and besides directories only. -/
structure OnlyDirectories (t t' : FileTree) : Prop where
  here : t'.here = t.here
  entry : ∀ l, t'.find? l = t.find? l ∨ t.find? l = none ∧ t'.find? l = some .directory

namespace OnlyDirectories

theorem refl (t : FileTree) : OnlyDirectories t t :=
  ⟨rfl, fun _ => .inl rfl⟩

theorem trans {t'' : FileTree} (h : OnlyDirectories t t') (h' : OnlyDirectories t' t'') :
    OnlyDirectories t t'' := by
  refine ⟨h'.here.trans h.here, ?_⟩
  intro l
  rcases h'.entry l with hl' | ⟨hnone, hdirectory⟩
  · rw [hl']
    exact h.entry l
  · rcases h.entry l with hl | ⟨hnone', -⟩
    · exact .inr ⟨hl.symm.trans hnone, hdirectory⟩
    · exact .inr ⟨hnone', hdirectory⟩

/-- **No regular file is made or changed.** -/
theorem file_iff (h : OnlyDirectories t t') (text? : Option String) :
    t'.find? l = some (.file text?) ↔ t.find? l = some (.file text?) := by
  rcases h.entry l with hl | ⟨hnone, hdirectory⟩
  · rw [hl]
  · rw [hnone, hdirectory]
    simp

end OnlyDirectories

theorem onlyDirectories_makeDir (h : t.makeDir start names = .ok t') : OnlyDirectories t t' := by
  unfold makeDir at h
  obtain ⟨l, -, h⟩ := bind_eq_ok_iff.mp h
  cases hl : t.find? l with
  | some e =>
    rw [hl] at h
    exact absurd h (by simp [throw, throwThe, MonadExceptOf.throw])
  | none =>
    rw [hl] at h
    obtain rfl : t.put l .directory = t' := Except.ok.inj h
    have hne : l ≠ [] := by
      rintro rfl
      rw [find?_root] at hl
      exact absurd hl (by simp)
    refine ⟨rfl, ?_⟩
    intro l'
    rw [find?_put t hne]
    by_cases hl' : l' = l
    · subst hl'
      exact .inr ⟨hl, if_pos rfl⟩
    · exact .inl (if_neg hl')

theorem onlyDirectories_makeLast (t : FileTree) (start : Location) (names : List String) :
    OnlyDirectories t (t.makeLast start names).2 := by
  unfold makeLast
  cases h : t.makeDir start names with
  | ok t' => exact onlyDirectories_makeDir h
  | error e => exact .refl t

theorem onlyDirectories_makeDirsAt (t : FileTree) (start : Location) :
    ∀ names, OnlyDirectories t (t.makeDirsAt start names).2
  | [] => by
    rw [makeDirsAt]
    exact .refl t
  | name :: outer => by
    have hparents := onlyDirectories_makeDirsAt t start (parent (name :: outer))
    rw [makeDirsAt]
    cases hmake : t.makeDir start (name :: outer) with
    | ok t' => exact onlyDirectories_makeDir hmake
    | error e =>
      cases e with
      | notFound =>
        -- The parents are made first, and what they leave behind stays.
        rcases hup : t.makeDirsAt start (parent (name :: outer)) with ⟨_ | _, t'⟩
        · rw [hup] at hparents
          exact hparents
        · rw [hup] at hparents
          exact hparents.trans (onlyDirectories_makeLast t' start (name :: outer))
      | _ => exact .refl t
termination_by names => names.length
decreasing_by exact length_parent_lt name outer

/-- **Directories are made where nothing is**, whether or not all of them can be. -/
theorem onlyDirectories_makeDirs (t : FileTree) (path : String) :
    OnlyDirectories t (t.makeDirs path).2 := by
  unfold makeDirs
  by_cases hempty : path.isEmpty = true
  · rw [if_pos hempty]
    exact .refl t
  · rw [if_neg hempty]
    cases parse path with
    | error e => exact .refl t
    | ok p => exact onlyDirectories_makeDirsAt t _ _

end FileTree
end Files
end TransferCost
