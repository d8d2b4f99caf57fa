import Mathlib.Data.List.Dedup
import ReportTree.Proofs.Forest.Merging
import ReportTree.Proofs.Report.Severity
import ReportTree.Report.Build

/-!
# The report of file paths

However paths share folders and whatever folders are merged afterwards, the tree of the report has
one file for each path that the text names, under the names that make the path.

* `Forest.Tidy.exists_leads_iff`: which paths the files of the final tree have.
* `Forest.Tidy.perm_filePaths`: they are the paths that were inserted, each once.
* `Report.document_ofPaths`: the document of a list of paths.
-/

namespace ReportTree

/-- The paths of the nodes of a tree that have the icon `file`: the names from just below the root
down to the node, with slashes between them. -/
def Tree.filePaths (file : Text) (t : Tree) : List Text :=
  (t.places.filter fun p => p.2.label.icon = file).map fun p => Text.join "/" p.1

/-- The paths that the lines of a text name, without superfluous slashes. -/
def Text.normalPaths (t : Text) : List Text :=
  ((t.lines.map trim).filter (!·.isEmpty)).map fun path => join "/" (Forest.segments path)

namespace Forest

/-! ## Segments -/

/-- A path without superfluous slashes has the segments of the path. -/
theorem segments_join_segments (path : Text) :
    segments (Text.join "/" (segments path)) = segments path := by
  have hnonempty : ∀ s ∈ segments path, (!s.isEmpty) = true := fun s hs => (List.mem_filter.1 hs).2
  by_cases hnil : segments path = []
  · rw [hnil]
    rfl
  · have hsep : ∀ s ∈ segments path, CodePoint.scalar '/' ∉ s := fun s hs =>
      Text.not_mem_of_mem_splitOn (List.mem_filter.1 hs).1
    rw [segments, Text.slash_eq, Text.splitOn_join hnil hsep]
    exact List.filter_eq_self.2 hnonempty

variable {f g : Forest} {i j r : NodeId} {folder file : Text} {names : List Text}
  {paths : List Text}

/-- Paths are inserted one after the other. -/
theorem Inserted.fileNodes {done : List (List Text)} (h : Inserted folder file r f done r)
    (hfile : file ≠ []) (hfolder : file ≠ folder)
    (hplain : ∀ path ∈ paths, ∀ s ∈ segments path, Markup.Plain s) :
    Inserted folder file r (paths.foldl (fun f path => (f.fileNode r path folder file).2) f)
      (done ++ paths.map segments) r := by
  induction paths generalizing f done with
  | nil => rwa [List.map_nil, List.append_nil]
  | cons path paths ih =>
    have hfirst := h.fileNode hfile hfolder (hplain path List.mem_cons_self)
    have hrest := ih hfirst fun p hp => hplain p (List.mem_cons_of_mem path hp)
    rwa [List.append_assoc] at hrest

/-! ## What is seen -/

variable {shown : NodeId → Text → Prop} {below : Row} {done : List (List Text)}

/-- The files of the tree, each with the names that lead to it. -/
def files (file : Text) (r : NodeId) (below : Row) (f : Forest) : List (List Text × NodeId) :=
  (([], r) :: below.places f.label []).filter fun p => (f.label p.2).icon = file

theorem Holds.filePaths_tree (h : f.Holds (.cons r below .nil)) (file : Text) :
    (f.tree r).filePaths file = (f.files file r below).map fun p => Text.join "/" p.1 := by
  have hicon : (fun p : List Text × NodeId => decide ((f.tree p.2).label.icon = file)) =
      fun p => decide ((f.label p.2).icon = file) := by
    funext p
    rw [label_tree]
  rw [Tree.filePaths, h.places_tree, List.filter_map, List.map_map, files]
  congr 1
  exact congrArg (List.filter · _) hicon

theorem Holds.nodup_places (h : f.Holds (.cons r below .nil)) :
    ((([], r) :: below.places f.label []).map Prod.snd).Nodup := by
  rw [List.map_cons, Row.map_snd_places]
  simpa [Row.nodes] using h.nodup

/-- No node stands in two places. -/
theorem Holds.eq_of_mem_files (h : f.Holds (.cons r below .nil)) {p q : List Text × NodeId}
    (hp : p ∈ f.files file r below) (hq : q ∈ f.files file r below) (hpq : p.2 = q.2) : p = q :=
  List.inj_on_of_nodup_map h.nodup_places (List.mem_filter.1 hp).1 (List.mem_filter.1 hq).1 hpq

theorem Holds.nodup_files (h : f.Holds (.cons r below .nil)) : (f.files file r below).Nodup :=
  h.nodup_places.of_map.filter _

theorem Tidy.mem_files_iff (h : Tidy folder file r shown f) (hw : f.Holds (.cons r below .nil))
    {t : Text} : (∃ names, (names, j) ∈ f.files file r below ∧ Text.slashed names = t) ↔ shown j t := by
  rw [← h.shown_iff, spells_iff]
  simp only [files, List.mem_filter, hw.mem_places_iff, decide_eq_true_eq]
  constructor
  · rintro ⟨names, ⟨hleads, hicon⟩, ht⟩
    exact ⟨⟨names, hleads, ht⟩, hicon⟩
  · rintro ⟨⟨names, hleads, ht⟩, hicon⟩
    exact ⟨names, ⟨hleads, hicon⟩, ht⟩

/-- A file of the tree was inserted: its names make the path that was inserted for it. -/
theorem Tidy.exists_path_of_mem_files (hf : Tidy folder file r (fun j t =>
      ∃ names ∈ paths.map segments, f.Leads r names j ∧ Text.slashed names = t) g)
    (hw : g.Holds (.cons r below .nil)) (hmem : (names, j) ∈ g.files file r below) :
    ∃ path ∈ paths, f.Leads r (segments path) j ∧
      Text.join "/" names = Text.join "/" (segments path) := by
  obtain ⟨_, hsegments, hleads, ht⟩ := (hf.mem_files_iff hw).1 ⟨names, hmem, rfl⟩
  obtain ⟨path, hpath, rfl⟩ := List.mem_map.1 hsegments
  exact ⟨path, hpath, hleads, by rw [← Text.drop_slashed, ← ht, Text.drop_slashed]⟩

/-- The files of a tidy tree are the paths that were inserted, each once. -/
theorem Tidy.perm_filePaths (hf : Tidy folder file r (fun j t =>
      ∃ names ∈ paths.map segments, f.Leads r names j ∧ Text.slashed names = t) g)
    (hdistinct : f.Distinct) (hleads : ∀ path ∈ paths, ∃ j, f.Leads r (segments path) j) :
    ((g.tree r).filePaths file).Perm
      (paths.map fun path => Text.join "/" (segments path)).dedup := by
  obtain ⟨below, hw⟩ := hf.rising.exists_holds hf.coherent hf.root_lt
  rw [hw.filePaths_tree]
  refine (List.perm_ext_iff_of_nodup ?_ (List.nodup_dedup _)).2 fun t => ?_
  · -- Files with the same path were inserted for the same segments, which lead to one node.
    refine hw.nodup_files.map_on fun p hp q hq hpq => ?_
    obtain ⟨path, -, hpath, hpjoin⟩ := hf.exists_path_of_mem_files hw hp
    obtain ⟨path', -, hpath', hqjoin⟩ := hf.exists_path_of_mem_files hw hq
    have hsegments : segments path = segments path' := by
      rw [← segments_join_segments path, ← hpjoin, hpq, hqjoin, segments_join_segments]
    rw [← hsegments] at hpath'
    exact hw.eq_of_mem_files hp hq (hdistinct.eq_of_leads hpath hpath')
  · rw [List.mem_dedup, List.mem_map, List.mem_map]
    constructor
    · rintro ⟨p, hp, rfl⟩
      obtain ⟨path, hpath, -, hjoin⟩ := hf.exists_path_of_mem_files hw hp
      exact ⟨path, hpath, hjoin.symm⟩
    · rintro ⟨path, hpath, rfl⟩
      obtain ⟨j, hj⟩ := hleads path hpath
      obtain ⟨names, hmem, ht⟩ :=
        (hf.mem_files_iff hw).2 ⟨segments path, List.mem_map_of_mem hpath, hj, rfl⟩
      exact ⟨(names, j), hmem, by rw [← Text.drop_slashed, ht, Text.drop_slashed]⟩

/-- All nodes below the root that are no files are folders with something in them. -/
theorem Tidy.settled_tree (h : Tidy folder file r shown f) {p : List Text × Tree}
    (hp : p ∈ (f.tree r).placesBelow []) (hfile : p.2.label.icon ≠ file) :
    p.2.label.icon = folder ∧ p.2.children ≠ [] := by
  obtain ⟨below, hw⟩ := h.rising.exists_holds h.coherent h.root_lt
  have hplaces := hw.places_tree
  rw [Tree.places, List.map_cons, List.cons.injEq] at hplaces
  rw [hplaces.2] at hp
  obtain ⟨⟨names, j⟩, hmem, rfl⟩ := List.mem_map.1 hp
  have hleads : f.Leads r names j := hw.mem_places_iff.1 (List.mem_cons_of_mem _ hmem)
  have hnode : j ∈ below.nodes := Row.map_snd_places f.label [] below ▸ List.mem_map_of_mem hmem
  have hjr : j ≠ r := by
    rintro rfl
    exact (List.nodup_cons.1 hw.nodup).1 (List.mem_append_left _ hnode)
  rw [label_tree] at hfile ⊢
  obtain ⟨hicon, hchildren⟩ := (h.settled j hleads.within hjr).resolve_left hfile
  obtain ⟨c, hc⟩ := List.exists_mem_of_ne_nil _ hchildren
  obtain ⟨depth, hsize⟩ := Nat.exists_eq_succ_of_ne_zero (Nat.ne_zero_of_lt h.root_lt)
  refine ⟨hicon, ?_⟩
  rw [tree, hsize, treeTo, Tree.children]
  exact List.ne_nil_of_mem (List.mem_map_of_mem hc)

end Forest

/-! ## The report -/

namespace Report

/-- The document of a list of paths with plain segments has one tab. The files of its tree are the
paths that the lines name, each once, and every other node below the root is a folder with something
in it. -/
theorem document_ofPaths (paths title tab folder file mainText : Text)
    (hplain : ∀ line ∈ paths.lines, ∀ s ∈ Forest.segments line.trim, Markup.Plain s)
    (hfile : file ≠ []) (hfolder : file ≠ folder) :
    ∃ t : Tree,
      (ofPaths paths title tab folder file mainText).document =
        { title := title, mainText := mainText, tabs := [{ tree := t }] } ∧
      (t.filePaths file).Perm paths.normalPaths.dedup ∧
      ∀ p ∈ t.placesBelow [], p.2.label.icon ≠ file →
        p.2.label.icon = folder ∧ p.2.children ≠ [] := by
  have hlines : ∀ path ∈ (paths.lines.map Text.trim).filter (!·.isEmpty),
      ∀ s ∈ Forest.segments path, Markup.Plain s := by
    intro path hpath
    obtain ⟨line, hline, rfl⟩ := List.mem_map.1 (List.mem_filter.1 hpath).1
    exact hplain line hline
  have hinserted := (Forest.inserted_addRoot folder tab hfile).fileNodes hfile hfolder hlines
  rw [List.nil_append] at hinserted
  have htidy := hinserted.tidy.mergeFolders hfolder 0
  refine ⟨_, rfl, ?_, fun p hp => htidy.settled_tree hp⟩
  exact htidy.perm_filePaths hinserted.distinct fun path hpath =>
    hinserted.exists_leads _ (List.mem_map_of_mem hpath)

/-- Folders are shared and merged, a line is repeated, and a file has a file below it. -/
theorem document_ofPaths_sources :
    ∃ t : Tree,
      (ofPaths "src/lib/a.c\n src//lib/b.c\nsrc/lib/a.c\n\ndoc\ndoc/img/x.png" "" "" "dir" "file"
        "").document = { title := "", mainText := "", tabs := [{ tree := t }] } ∧
      (t.filePaths "file").Perm ["src/lib/b.c", "src/lib/a.c", "doc", "doc/img/x.png"] ∧
      ∀ p ∈ t.placesBelow [], p.2.label.icon ≠ "file" →
        p.2.label.icon = "dir" ∧ p.2.children ≠ [] := by
  obtain ⟨t, hdocument, hpaths, hfolders⟩ := document_ofPaths
    "src/lib/a.c\n src//lib/b.c\nsrc/lib/a.c\n\ndoc\ndoc/img/x.png" "" "" "dir" "file" ""
    (by decide +kernel) (by decide +kernel) (by decide +kernel)
  refine ⟨t, hdocument, ?_, hfolders⟩
  have hnormal : (Text.normalPaths
      "src/lib/a.c\n src//lib/b.c\nsrc/lib/a.c\n\ndoc\ndoc/img/x.png").dedup =
      ["src/lib/b.c", "src/lib/a.c", "doc", "doc/img/x.png"] := by decide +kernel
  rwa [hnormal] at hpaths

end Report

end ReportTree
