import TransferCost.Proofs.Grid
import TransferCost.Proofs.Paths
import TransferCost.Proofs.Readable
import TransferCost.Proofs.Run

/-!
# The list of created files

A run that succeeds ends with a list of the files that it created.  The list is exact if it names
each written file, by one path, and each file that it names holds what was exported to it.  This
file says when it is.

## 1.  Saved and listed

An export that is written whole or not at all (`Export.IsWhole`) lists what it saves.  One file is
always written whole.  The two tables are not if the second of them is refused, and then the first
is left behind without being listed (`isWhole_tables_iff`).

## 2.  Exports that meet

Of the files of a run only the results and the sample dump can have the same extension, so only
these two can meet (`Command.apart_exports`).  If they do, the dump replaces the results, and since
the two texts always differ (`document_ne_dump`), the results are lost.

## 3.  When the list is exact

`Command.created_exact_iff` says that these two, and results that cannot be read back, are all that
can go wrong.
-/

namespace TransferCost

open Files (FileTree HasExtension exported hasExtension_exported isExtension_csv isExtension_json
  isExtension_md suffix_join)

/-! ## 1.  Saved and listed -/

namespace Export

variable {e : Export} {t : FileTree}

/-- The export is written whole, or not at all. -/
def IsWhole (e : Export) (t : FileTree) : Prop :=
  e.succeeds t = true ∨ e.saved t = []

theorem admits_of_mem_saved {f : String × String} (hf : f ∈ e.saved t) : t.admits f.1 = true :=
  List.mem_takeWhile_imp (p := fun f : String × String => t.admits f.1) hf

/-- What succeeds is saved. -/
theorem saved_eq_files (h : e.succeeds t = true) : e.saved t = e.files :=
  List.takeWhile_eq_self_iff.mpr (List.all_eq_true.mp h)

/-- **An export that is written whole, or not at all, lists what it saves.** -/
theorem listed_eq_map_saved (h : e.IsWhole t) : e.listed t = (e.saved t).map (·.1) := by
  unfold listed
  by_cases hok : e.succeeds t = true
  · rw [if_pos hok, saved_eq_files hok]
  · rw [if_neg hok, h.resolve_left hok]
    rfl

theorem succeeds_single (what path text : String) (t : FileTree) :
    (single what path text).succeeds t = t.admits path :=
  Bool.and_true _

theorem eq_of_mem_listed_single {what path path' text : String}
    (h : path' ∈ (single what path text).listed t) : path' = path := by
  unfold listed at h
  split_ifs at h
  · exact List.mem_singleton.mp h
  · exact absurd h List.not_mem_nil

theorem isWhole_single (what path text : String) (t : FileTree) :
    (single what path text).IsWhole t := by
  unfold IsWhole succeeds saved single
  cases h : t.admits path with
  | true => exact .inl (by simp [h])
  | false => exact .inr (by simp [h])

/-- **The tables are written whole if the second one can be written**, unless the first one cannot
be. -/
theorem isWhole_tables_iff {directory : String} {a : Analysis} :
    (tables directory (Table.ofAnalysis a)).IsWhole t ↔
      (a.scaling.isEmpty = false → t.admits (Files.join directory Table.scalingFile) = true →
        t.admits (Files.join directory Table.kindsFile) = true) := by
  unfold IsWhole succeeds saved tables Table.ofAnalysis
  cases a.scaling.isEmpty with
  | true => cases hkinds : t.admits (Files.join directory Table.kindsFile) <;> simp [hkinds]
  | false =>
    cases hscaling : t.admits (Files.join directory Table.scalingFile) <;>
      cases hkinds : t.admits (Files.join directory Table.kindsFile) <;> simp [hscaling, hkinds]

end Export

/-! ## 2.  Exports that meet -/

/-- A result document is no sample dump: their first keys differ. -/
theorem document_ne_dump (d : ResultDocument) (s : Store) : d.text ≠ s.toJson.prettyText := by
  intro h
  have hreading := congrArg Json.Reading.ofString h
  unfold ResultDocument.text at hreading
  rw [Json.ofString_prettyText, Json.ofString_prettyText] at hreading
  have hobject := Json.Reading.object.inj (Prod.mk.inj hreading).1
  have hkey := (Prod.mk.inj (List.cons.inj hobject.1).1).1
  exact absurd hkey (by decide)

/-- A written analysis is read back if and only if it can be read. -/
theorem isReadable_iff_readsBack {a : Analysis} (description : String) {now : Timestamp}
    (id : RunId) (hnow : now.IsValid) :
    a.IsReadable ↔ ∃ d, ResultDocument.ofString
      (ResultDocument.ofAnalysis a description now id).text = .ok d ∧ d.results = a :=
  (ResultDocument.readsBack_iff (d := .ofAnalysis a description now id) hnow).symm

namespace CommandLine

variable {c : Command} {study : Study} {a : Analysis} {now : Timestamp} {id : RunId}
  {t : FileTree}

/-- Both tables have the same extension. -/
theorem hasExtension_tables {directory : String} {f : String × String}
    (hf : f ∈ (Export.tables directory (Table.ofAnalysis a)).files) :
    HasExtension f.1 "csv" := by
  have hnames : ∀ entry ∈ Table.ofAnalysis a, HasExtension entry.1 "csv" := by
    unfold Table.ofAnalysis
    have hscaling : HasExtension Table.scalingFile "csv" := by
      unfold HasExtension
      decide
    have hkinds : HasExtension Table.kindsFile "csv" := by
      unfold HasExtension
      decide
    cases a.scaling.isEmpty <;> simp [hscaling, hkinds]
  obtain ⟨entry, hentry, rfl⟩ := List.mem_map.mp hf
  exact (hnames entry hentry).trans (suffix_join directory entry.1)

/-- The two tables never meet. -/
theorem apart_tables (directory : String) (a : Analysis) (t : FileTree) :
    (Export.tables directory (Table.ofAnalysis a)).files.Pairwise fun f g => t.Apart f.1 g.1 := by
  have happart : t.Apart (Files.join directory Table.scalingFile)
      (Files.join directory Table.kindsFile) :=
    FileTree.apart_of_endings (by decide) (by decide) (suffix_join directory _) (by decide)
      (by decide) (suffix_join directory _) (by decide) (by decide)
  unfold Export.tables Table.ofAnalysis
  cases a.scaling.isEmpty <;> simp [happart]

/-- The file of an export with a name, if there is one. -/
theorem mem_named {name? : Option String} {what directory ext text : String}
    {f : String × String} :
    f ∈ ((name?.toList.map fun name =>
        Export.single what (exported directory name ext) text).flatMap (·.files)) ↔
      ∃ name, name? = some name ∧ f = (exported directory name ext, text) := by
  cases name? <;> simp [Export.single]

theorem hasExtension_named {name? : Option String} {what directory ext text : String}
    {f : String × String}
    (hf : f ∈ ((name?.toList.map fun name =>
        Export.single what (exported directory name ext) text).flatMap (·.files))) :
    HasExtension f.1 ext := by
  obtain ⟨name, -, rfl⟩ := mem_named.mp hf
  exact hasExtension_exported directory name ext

theorem pairwise_named (name? : Option String) (what directory ext text : String) :
    ((name?.toList.map fun name =>
        Export.single what (exported directory name ext) text).flatMap (·.files)).Pairwise
      fun f g => t.Apart f.1 g.1 := by
  cases name? <;> simp [Export.single]

/-- **Only the results and the sample dump can meet.** -/
theorem Command.apart_exports (hmeet : ∀ name name', c.save = some name →
      c.dumpSamples = some name' →
      t.Apart (exported c.directory name "json") (exported c.directory name' "json")) :
    ((c.exports study a now id).flatMap (·.files)).Pairwise fun f g => t.Apart f.1 g.1 := by
  unfold exports
  simp only [List.flatMap_append, List.flatMap_singleton, List.pairwise_append,
    List.mem_append]
  refine ⟨⟨⟨apart_tables _ _ _, pairwise_named _ _ _ _ _, ?_⟩, pairwise_named _ _ _ _ _, ?_⟩,
    pairwise_named _ _ _ _ _, ?_⟩
  · intro f hf g hg
    exact FileTree.apart_of_extensions isExtension_csv isExtension_json (by decide)
      (hasExtension_tables hf) (hasExtension_named hg)
  · rintro f (hf | hf) g hg
    · exact FileTree.apart_of_extensions isExtension_csv isExtension_md (by decide)
        (hasExtension_tables hf) (hasExtension_named hg)
    · exact FileTree.apart_of_extensions isExtension_json isExtension_md (by decide)
        (hasExtension_named hf) (hasExtension_named hg)
  · rintro f ((hf | hf) | hf) g hg
    · exact FileTree.apart_of_extensions isExtension_csv isExtension_json (by decide)
        (hasExtension_tables hf) (hasExtension_named hg)
    · obtain ⟨name, hname, rfl⟩ := mem_named.mp hf
      obtain ⟨name', hname', rfl⟩ := mem_named.mp hg
      exact hmeet name name' hname hname'
    · exact FileTree.apart_of_extensions isExtension_md isExtension_json (by decide)
        (hasExtension_named hf) (hasExtension_named hg)

/-! ## 3.  When the list is exact -/

/-- The list of the created files is exact, for a run of this command from one machine to the
other, with this study and this analysis.  `t` is the tree in front of the exports. -/
structure Command.ListsExactly (c : Command) (study : Study) (a : Analysis) (t : FileTree)
    (w w' : Watched) (created : List String) : Prop where
  /-- No path is listed twice. -/
  nodup : created.Nodup
  /-- The listed files are those that were written. -/
  complete : ∀ l, (∃ path ∈ created, w'.files.site path = .ok l) ↔
    ∃ f ∈ w'.written.drop w.written.length, w'.files.site f.1 = .ok l
  /-- Where no listed file is, no regular file is new or different. -/
  untouched : ∀ l, (∀ path ∈ created, w'.files.site path ≠ .ok l) → ∀ text?,
    w'.files.find? l = some (.file text?) ↔ w.files.find? l = some (.file text?)
  /-- Each file of an export that is listed holds what was exported to it. -/
  contents : ∀ e ∈ c.exports study a w.clock w.runId, e.succeeds t = true →
    ∀ f ∈ e.files, w'.files.read f.1 = .ok f.2
  /-- The results can be read back, if they are listed. -/
  results : ∀ name, c.save = some name →
    exported c.directory name "json" ∈ created →
    ∃ text d, w'.files.read (exported c.directory name "json") = .ok text ∧
      ResultDocument.ofString text = .ok d ∧ d.results = a

/-- Nothing stands in the way of an exact list. -/
structure Command.IsTidy (c : Command) (a : Analysis) (t : FileTree) : Prop where
  /-- The table of the scaling curve is not written alone. -/
  tables : a.scaling.isEmpty = false →
    t.admits (Files.join c.directory Table.scalingFile) = true →
    t.admits (Files.join c.directory Table.kindsFile) = true
  /-- The results and the sample dump are different files. -/
  apart : ∀ name name', c.save = some name → c.dumpSamples = some name' →
    t.Apart (exported c.directory name "json") (exported c.directory name' "json")
  /-- Results that are written can be read back. -/
  readable : ∀ name, c.save = some name →
    t.admits (exported c.directory name "json") = true → a.IsReadable

section Outcome

variable {w w' : Watched}

/-- The tables are always exported. -/
theorem Command.mem_exports_tables :
    Export.tables c.directory (Table.ofAnalysis a) ∈ c.exports study a now id := by
  simp [exports]

/-- The export of the results, under a name. -/
theorem Command.mem_exports_save {name : String} (h : c.save = some name) :
    Export.single "JSON results" (exported c.directory name "json")
      (ResultDocument.ofAnalysis a description now id).text ∈ c.exports study a now id := by
  simp [exports, h]

/-- The export of the samples, under a name. -/
theorem Command.mem_exports_dump {name : String} (h : c.dumpSamples = some name) :
    Export.single "sample dump" (exported c.directory name "json") study.store.toJson.prettyText ∈
      c.exports study a now id := by
  simp [exports, h]

/-- Every export but the tables has one file, which is no table. -/
theorem Command.mem_exports_cases {e : Export} (h : e ∈ c.exports study a now id) :
    e = .tables c.directory (Table.ofAnalysis a) ∨
      ∃ what path text ext, e = .single what path text ∧ HasExtension path ext ∧
        Files.IsExtension ext ∧ ext ≠ "csv" := by
  unfold exports at h
  simp only [List.mem_append, List.mem_singleton, List.mem_map] at h
  rcases h with ((rfl | ⟨name, -, rfl⟩) | ⟨name, -, rfl⟩) | ⟨name, -, rfl⟩
  · exact .inl rfl
  · exact .inr ⟨_, _, _, _, rfl, hasExtension_exported _ _ _, isExtension_json, by decide⟩
  · exact .inr ⟨_, _, _, _, rfl, hasExtension_exported _ _ _, isExtension_md, by decide⟩
  · exact .inr ⟨_, _, _, _, rfl, hasExtension_exported _ _ _, isExtension_json, by decide⟩

/-- What one listed file holds, at the end of a run with an exact list. -/
theorem Command.ListsExactly.read_single {created : List String} {what path text : String}
    (h : c.ListsExactly study a t w w' created)
    (he : Export.single what path text ∈ c.exports study a w.clock w.runId)
    (hadmits : t.admits path = true) : w'.files.read path = .ok text :=
  h.contents _ he ((Export.succeeds_single what path text t).trans hadmits) (path, text)
    List.mem_cons_self

/-- The results and the sample dump cannot both be read at the end, if they are one file. -/
theorem Command.ListsExactly.apart {created : List String}
    (hsame : t.SameDirectories w'.files) (h : c.ListsExactly study a t w w' created)
    {name name' : String} (hsave : c.save = some name) (hdump : c.dumpSamples = some name') :
    t.Apart (exported c.directory name "json") (exported c.directory name' "json") := by
  intro l hl hl'
  have hdocument := FileTree.find?_of_read (hsame.site_eq_ok_iff.mpr hl)
    (h.read_single (mem_exports_save hsave) (FileTree.admits_iff.mpr ⟨l, hl⟩))
  have hsamples := FileTree.find?_of_read (hsame.site_eq_ok_iff.mpr hl')
    (h.read_single (mem_exports_dump hdump) (FileTree.admits_iff.mpr ⟨l, hl'⟩))
  rw [hdocument, Option.some.injEq, Files.Entry.file.injEq, Option.some.injEq] at hsamples
  exact document_ne_dump _ _ hsamples

/-- A table that is written alone is not listed. -/
theorem Command.ListsExactly.isWhole_tables (hsame : t.SameDirectories w'.files)
    (hwritten : w'.written =
      w.written ++ (c.exports study a w.clock w.runId).flatMap (·.saved t))
    (h : c.ListsExactly study a t w w'
      ((c.exports study a w.clock w.runId).flatMap (·.listed t))) :
    (Export.tables c.directory (Table.ofAnalysis a)).IsWhole t := by
  by_contra hpart
  obtain ⟨hfails, hsaved⟩ := not_or.mp hpart
  obtain ⟨f, hf⟩ := List.exists_mem_of_ne_nil _ hsaved
  obtain ⟨l, hl⟩ := FileTree.admits_iff.mp (Export.admits_of_mem_saved hf)
  have hnew : f ∈ w'.written.drop w.written.length := by
    rw [hwritten, List.drop_left]
    exact List.mem_flatMap.mpr ⟨_, mem_exports_tables, hf⟩
  obtain ⟨path, hpath, hsite⟩ := (h.complete l).mpr ⟨f, hnew, hsame.site_eq_ok_iff.mpr hl⟩
  obtain ⟨e, he, hlisted⟩ := List.mem_flatMap.mp hpath
  rcases mem_exports_cases he with rfl | ⟨what, path', text, ext, rfl, hextension, hext, hne⟩
  · rw [Export.listed, if_neg hfails] at hlisted
    exact absurd hlisted List.not_mem_nil
  · obtain rfl := Export.eq_of_mem_listed_single hlisted
    have happart : t.Apart f.1 path :=
      FileTree.apart_of_extensions isExtension_csv hext hne.symm
        (hasExtension_tables ((List.takeWhile_sublist _).subset hf)) hextension
    exact happart l hl (hsame.site_eq_ok_iff.mp hsite)

/-- **An exact list needs a tidy run.** -/
theorem Command.isTidy_of_listsExactly (hclock : w.clock.IsValid)
    (hdone : CarriesOut (c.exports study a w.clock w.runId) t a w w')
    (h : c.ListsExactly study a t w w'
      ((c.exports study a w.clock w.runId).flatMap (·.listed t))) : c.IsTidy a t := by
  have hsame : t.SameDirectories w'.files := by
    rw [hdone.files]
    exact FileTree.sameDirectories_writeAll _ _
  refine ⟨Export.isWhole_tables_iff.mp (h.isWhole_tables hsame hdone.written),
    fun name name' hsave hdump => h.apart hsame hsave hdump, ?_⟩
  intro name hsave hadmits
  have he : Export.single "JSON results" (exported c.directory name "json")
      (ResultDocument.ofAnalysis a description w.clock w.runId).text ∈
        c.exports study a w.clock w.runId := mem_exports_save hsave
  have hlisted : exported c.directory name "json" ∈
      (c.exports study a w.clock w.runId).flatMap (·.listed t) := by
    refine List.mem_flatMap.mpr ⟨_, he, ?_⟩
    rw [Export.listed, if_pos ((Export.succeeds_single _ _ _ t).trans hadmits)]
    exact List.mem_cons_self
  obtain ⟨text, d, hread, hd, hresults⟩ := h.results name hsave hlisted
  rw [h.read_single he hadmits] at hread
  rw [← Except.ok.inj hread] at hd
  exact (isReadable_iff_readsBack description w.runId hclock).mpr ⟨d, hd, hresults⟩

/-- **A tidy run has an exact list.** -/
theorem Command.listsExactly_of_isTidy (hclock : w.clock.IsValid)
    (hdone : CarriesOut (c.exports study a w.clock w.runId) t a w w')
    (hbefore : FileTree.OnlyDirectories w.files t) (h : c.IsTidy a t) :
    c.ListsExactly study a t w w'
      ((c.exports study a w.clock w.runId).flatMap (·.listed t)) := by
  have hsame : t.SameDirectories w'.files := by
    rw [hdone.files]
    exact FileTree.sameDirectories_writeAll _ _
  have hwhole : ∀ e ∈ c.exports study a w.clock w.runId, e.IsWhole t := by
    intro e he
    rcases mem_exports_cases he with rfl | ⟨what, path, text, -, rfl, -⟩
    · exact Export.isWhole_tables_iff.mpr h.tables
    · exact Export.isWhole_single what path text t
  have hlisted : (c.exports study a w.clock w.runId).flatMap (·.listed t) =
      ((c.exports study a w.clock w.runId).flatMap (·.saved t)).map (·.1) := by
    rw [List.map_flatMap]
    exact List.flatMap_congr fun e he => Export.listed_eq_map_saved (hwhole e he)
  have hadmits : ∀ f ∈ (c.exports study a w.clock w.runId).flatMap (·.saved t),
      t.admits f.1 = true := by
    intro f hf
    obtain ⟨e, -, hf⟩ := List.mem_flatMap.mp hf
    exact Export.admits_of_mem_saved hf
  have hapart : ((c.exports study a w.clock w.runId).flatMap (·.saved t)).Pairwise
      fun f g => t.Apart f.1 g.1 :=
    (apart_exports h.apart).sublist
      (List.Sublist.flatMap_right _ fun e _ => List.takeWhile_sublist _)
  have hread : ∀ e ∈ c.exports study a w.clock w.runId, e.succeeds t = true →
      ∀ f ∈ e.files, w'.files.read f.1 = .ok f.2 := by
    intro e he hok f hf
    rw [hdone.files]
    refine FileTree.read_writeAll_of_apart hadmits hapart (List.mem_flatMap.mpr ⟨e, he, ?_⟩)
    rwa [Export.saved_eq_files hok]
  rw [hlisted]
  refine ⟨FileTree.nodup_of_apart hadmits hapart, ?_, ?_, hread, ?_⟩
  · intro l
    rw [hdone.written, List.drop_left]
    simp only [List.mem_map, exists_exists_and_eq_and]
  · intro l hl text?
    rw [hdone.files, FileTree.find?_writeAll_of_ne, hbefore.file_iff]
    intro f hf hsite
    exact hl f.1 (List.mem_map_of_mem hf) (hsame.site_eq_ok_iff.mpr hsite)
  · intro name hsave hpath
    obtain ⟨f, hf, hpath⟩ := List.mem_map.mp hpath
    have hsaved : t.admits (exported c.directory name "json") = true := hpath ▸ hadmits f hf
    obtain ⟨d, hd, hresults⟩ :=
      (isReadable_iff_readsBack description w.runId hclock).mp (h.readable name hsave hsaved)
    refine ⟨_, d, ?_, hd, hresults⟩
    exact hread _ (mem_exports_save hsave) ((Export.succeeds_single _ _ _ t).trans hsaved)
      (_, _) List.mem_cons_self

end Outcome

/-- Simulated samples always have a scaling curve. -/
theorem Command.scaling_of_simulated {settings : Settings} (hinput : c.input = none)
    (hready : c.IsReady t settings study) (ha : study.analyze.value = .ok a) :
    a.scaling.isEmpty = false := by
  have hstudy : study = Study.simulated settings 1 := by
    have hgathered := hready.gathered
    unfold Gathers at hgathered
    rw [hinput] at hgathered
    rw [hgathered, Study.simulate_start]
  have hsize : 0 < (study.store.samples ⟨.optimized, .singleRecipient⟩).length := by
    have henough := hready.enough ⟨.optimized, .singleRecipient⟩
    omega
  obtain ⟨x, hx⟩ := List.exists_mem_of_length_pos hsize
  have hmode (o : Optimization) : ∃ y ∈ study.store.samplesOfMode o, y.amount = x.amount := by
    rw [hstudy] at hx ⊢
    have hamount := (Study.exists_sample_simulated_iff one_ne_zero).mp ⟨x, hx, rfl⟩
    obtain ⟨y, hy, hsame⟩ := (Study.exists_sample_simulated_iff one_ne_zero
      (p := ⟨o, .singleRecipient⟩)).mpr hamount
    exact ⟨y, Scaling.mem_samplesOfMode.mpr ⟨_, hy⟩, hsame⟩
  have hpoint : x.amount ∈ a.scaling.points.map (·.amount) := by
    rw [Study.scaling_of_analyze ha, Scaling.points_ofStore, Scaling.amounts_pointsOf,
      mem_sharedAmounts]
    exact ⟨hmode _, hmode _⟩
  unfold Scaling.isEmpty
  rw [List.isEmpty_eq_false_iff]
  intro hnil
  rw [hnil] at hpoint
  exact absurd hpoint List.not_mem_nil

/-- A machine with an output directory, in which a directory stands in the place of the second
table. -/
def obstructed : Watched where
  files := ⟨[], [([Table.kindsFile, "out"], .directory), (["out"], .directory)]⟩
  clock := ⟨⟨2024, 1, 1⟩, 0, 0⟩
  runId := .ofNat 0

end CommandLine
end TransferCost
