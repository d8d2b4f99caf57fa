import ReportTree.Proofs.Forest.Laid
import ReportTree.Proofs.Report.FromPaths

/-!
# The order of file paths

The report of file paths depends on nothing but the set of paths, where no path goes on below the
end of another one: the order of the lines, lines that come twice, blanks around a path and
superfluous slashes change nothing.

* `Forest.arranged_tree_eq`: where names lead to the same labels, the arranged trees are the same.
* `Forest.Laid.tree_mergeFolders_eq`: what merging leaves of two trees of the same paths.
* `Report.document_ofPaths_congr`: texts with the same paths have the same report.
-/

namespace ReportTree

namespace Forest

variable {f g : Forest} {i j c r r' : NodeId} {folder file tab : Text} {names : List Text}
  {done done' : List (List Text)} {x : Label}

/-! ## Names and labels -/

theorem shows_nil_iff : f.Shows i [] x ↔ f.label i = x := by
  constructor
  · rintro ⟨_, rfl, h⟩
    exact h
  · exact fun h => ⟨i, rfl, h⟩

/-- Below a child, names lead where they lead after its own name. -/
theorem Distinct.shows_cons_iff (hd : f.Distinct) (hc : c ∈ f.children i) :
    f.Shows i ((f.label c).name :: names) x ↔ f.Shows c names x := by
  constructor
  · rintro ⟨k, ⟨d, hdi, hname, hk⟩, hx⟩
    rw [hd i d hdi c hc hname] at hk
    exact ⟨k, hk, hx⟩
  · rintro ⟨k, hk, hx⟩
    exact ⟨k, ⟨c, hc, rfl, hk⟩, hx⟩

theorem Distinct.nodup_names (hd : f.Distinct) (hf : f.Coherent) (i : NodeId) :
    ((f.children i).map fun c => (f.label c).name).Nodup :=
  (hf.nodup i).map_on fun c hc d hd' hcd => hd i c hc d hd' hcd

/-- Where names show what they show in another forest, every child has a counterpart there. -/
theorem exists_tree_of_shows (h : ∀ names x, f.Shows i names x → g.Shows j names x) :
    ∀ t ∈ ((f.children i).map f.tree).map (Tree.arranged folder),
      ∃ u ∈ ((g.children j).map g.tree).map (Tree.arranged folder),
        u.label.name = t.label.name := by
  intro t ht
  rw [List.map_map] at ht ⊢
  obtain ⟨c, hc, rfl⟩ := List.mem_map.1 ht
  have hshows : f.Shows i [(f.label c).name] (f.label c) := ⟨c, ⟨c, hc, rfl, rfl⟩, rfl⟩
  obtain ⟨_, ⟨d, hd, -, rfl⟩, hlabel⟩ := h _ _ hshows
  refine ⟨_, List.mem_map_of_mem hd, ?_⟩
  simp only [Function.comp_apply, Tree.label_arranged, label_tree, hlabel]

/-- Where the same names show the same, the trees are the same but for the order of the children of
folders. -/
theorem arranged_tree_eq {rank rank' : NodeId → Nat} (hf : f.Coherent) (hg : g.Coherent)
    (hfr : f.Ranked rank) (hgr : g.Ranked rank') (hfd : f.Distinct) (hgd : g.Distinct)
    (hfi : ∀ k, f.Within i k → f.children k ≠ [] → (f.label k).icon = folder)
    (hgj : ∀ k, g.Within j k → g.children k ≠ [] → (g.label k).icon = folder)
    (h : ∀ names x, f.Shows i names x ↔ g.Shows j names x) :
    (f.tree i).arranged folder = (g.tree j).arranged folder := by
  induction hn : rank i using Nat.strongRecOn generalizing i j with
  | _ n ih =>
  subst hn
  have hlabel : f.label i = g.label j := (shows_nil_iff.1 ((h [] _).1 (shows_nil_iff.2 rfl))).symm
  by_cases hicon : (f.label i).icon = folder
  · -- Children with the same name are the same, arranged.
    have hmatch : ∀ c ∈ f.children i, ∀ d ∈ g.children j, (f.label c).name = (g.label d).name →
        (f.tree c).arranged folder = (g.tree d).arranged folder := by
      intro c hc d hd hname
      refine ih (rank c) (hfr.lt i c hc) (fun k hk => hfi k (.head hc hk))
        (fun k hk => hgj k (.head hd hk)) (fun names x => ?_) rfl
      rw [← hfd.shows_cons_iff hc, ← hgd.shows_cons_iff hd, hname]
      exact h _ _
    rw [Tree.arranged_of_eq (by rwa [label_tree]),
      Tree.arranged_of_eq (by rwa [label_tree, ← hlabel]), label_tree, label_tree, hlabel, hfr.children_tree, hgr.children_tree]
    congr 1
    apply Tree.sorted_eq_of_names
    · simpa [Function.comp_def] using hfd.nodup_names hf i
    · simpa [Function.comp_def] using hgd.nodup_names hg j
    · exact exists_tree_of_shows fun names x => (h names x).1
    · exact exists_tree_of_shows fun names x => (h names x).2
    · simp only [List.map_map, List.forall_mem_map, Function.comp_apply, Tree.label_arranged,
        label_tree]
      exact hmatch
  · have hnil : f.children i = [] := by
      by_contra hne
      exact hicon (hfi i .refl hne)
    have hnil' : g.children j = [] := by
      by_contra hne
      exact hicon (hlabel ▸ hgj j .refl hne)
    rw [hfr.tree_eq, hgr.tree_eq, hnil, hnil', hlabel]
    rfl

/-! ## Paths -/

theorem laidLabel_congr (h : ∀ p, p ∈ done ↔ p ∈ done') (place : List Text) :
    laidLabel folder file tab done place names = laidLabel folder file tab done' place names := by
  have habove : Above (place :: done) names ↔ Above (place :: done') names := by
    simp only [Above, List.mem_cons, h]
  simp only [laidLabel, h, habove]

/-- What merging leaves of the tree of paths depends on nothing but the set of paths. -/
theorem Laid.tree_mergeFolders_eq (h : Laid folder file tab r f done [])
    (h' : Laid folder file tab r' g done' []) (hdone : ∀ p, p ∈ done ↔ p ∈ done')
    (hfree : ∀ p ∈ done, ∀ q ∈ done, p <+: q → p = q) :
    (f.mergeFolders r folder).tree r = (g.mergeFolders r' folder).tree r' := by
  have hfree' : ∀ p ∈ done', ∀ q ∈ done', p <+: q → p = q := fun p hp q hq =>
    hfree p ((hdone p).2 hp) q ((hdone q).2 hq)
  have hfr := h.rising.ranked h.coherent
  have hgr := h'.rising.ranked h'.coherent
  have harranged : (f.tree r).arranged folder = (g.tree r').arranged folder := by
    refine arranged_tree_eq h.coherent h'.coherent hfr hgr h.distinct h'.distinct
      (fun k => h.icon_eq hfree) (fun k => h'.icon_eq hfree') fun names x => ?_
    simp only [h.shows_iff, h'.shows_iff, List.mem_cons, hdone, laidLabel_congr hdone]
  have hlabel : f.label r = g.label r' := by
    rw [← label_tree, ← Tree.label_arranged folder, harranged, Tree.label_arranged, label_tree]
  rw [hfr.tree_mergeFolders_root h.coherent h.parent_root h.root_lt,
    hgr.tree_mergeFolders_root h'.coherent h'.parent_root h'.root_lt, ← hlabel]
  split
  · next hicon =>
    rw [← Tree.foldedBelow_arranged (by rwa [label_tree]), harranged,
      Tree.foldedBelow_arranged (by rwa [label_tree, ← hlabel])]
  · next hicon =>
    rw [← Tree.arranged_of_ne (t := f.tree r) (by rwa [label_tree]), harranged,
      Tree.arranged_of_ne (by rwa [label_tree, ← hlabel])]

/-- The paths that the lines of a text name, as they are written. -/
def writtenPaths (paths : Text) : List Text := (paths.lines.map Text.trim).filter (!·.isEmpty)

/-- Without superfluous slashes they have the same segments. -/
theorem mem_segments_iff {paths : Text} {p : List Text} :
    p ∈ (writtenPaths paths).map segments ↔ ∃ path ∈ paths.normalPaths, segments path = p := by
  rw [writtenPaths, Text.normalPaths]
  simp only [List.mem_map, exists_exists_and_eq_and, segments_join_segments]

theorem laid_addPaths (folder file tab : Text) {paths : Text}
    (hplain : ∀ p ∈ (writtenPaths paths).map segments, ∀ s ∈ p, Markup.Plain s)
    (hfree : ∀ p ∈ (writtenPaths paths).map segments, ∀ q ∈ (writtenPaths paths).map segments,
      p <+: q → p = q) :
    Laid folder file tab 0 ((empty.addRoot tab).2.addPaths 0 paths folder file)
      ((writtenPaths paths).map segments) [] :=
  (laid_addRoot folder file tab).fileNodes
    (fun _ hpath => hplain _ (List.mem_map_of_mem hpath)) hfree

end Forest

/-! ## The report -/

namespace Report

/-- Texts that name the same paths have the same report, whatever its title, the name of its tab and
its icons. The segments of the paths are plain, and no path goes on below the end of another one. -/
theorem document_ofPaths_congr (paths paths' title tab folder file mainText : Text)
    (hplain : ∀ line ∈ paths.lines, ∀ s ∈ Forest.segments line.trim, Markup.Plain s)
    (hfree : ∀ p ∈ paths.normalPaths, ∀ q ∈ paths.normalPaths,
      Forest.segments p <+: Forest.segments q → p = q)
    (hsame : ∀ p, p ∈ paths.normalPaths ↔ p ∈ paths'.normalPaths) :
    (ofPaths paths title tab folder file mainText).document =
      (ofPaths paths' title tab folder file mainText).document := by
  have hplain' : ∀ p ∈ (Forest.writtenPaths paths).map Forest.segments, ∀ s ∈ p,
      Markup.Plain s := by
    intro p hp
    obtain ⟨path, hpath, rfl⟩ := List.mem_map.1 hp
    obtain ⟨line, hline, rfl⟩ := List.mem_map.1 (List.mem_filter.1 hpath).1
    exact hplain line hline
  have hfree' : ∀ p ∈ (Forest.writtenPaths paths).map Forest.segments,
      ∀ q ∈ (Forest.writtenPaths paths).map Forest.segments, p <+: q → p = q := by
    intro p hp q hq hprefix
    obtain ⟨path, hpath, rfl⟩ := Forest.mem_segments_iff.1 hp
    obtain ⟨path', hpath', rfl⟩ := Forest.mem_segments_iff.1 hq
    rw [hfree path hpath path' hpath' hprefix]
  -- The other text has the same paths, segment by segment.
  have hsegments (p : List Text) : p ∈ (Forest.writtenPaths paths).map Forest.segments ↔
      p ∈ (Forest.writtenPaths paths').map Forest.segments := by
    simp only [Forest.mem_segments_iff, hsame]
  have hlaid := Forest.laid_addPaths folder file tab hplain' hfree'
  have hlaid' := Forest.laid_addPaths folder file tab
    (fun p hp => hplain' p ((hsegments p).2 hp))
    (fun p hp q hq => hfree' p ((hsegments p).2 hp) q ((hsegments q).2 hq))
  have htree := hlaid.tree_mergeFolders_eq hlaid' hsegments hfree'
  exact congrArg (fun t => ({ title := title, mainText := mainText, tabs := [{ tree := t }] } :
    Document)) htree

/-- Lines are permuted and repeated, with blanks around them and superfluous slashes. -/
theorem document_ofPaths_congr_sources :
    (ofPaths "src/lib/a.c\nsrc/lib/b.c\ndoc/x.md" "" "" "dir" "file" "").document =
      (ofPaths "doc//x.md\n\n src/lib/b.c\nsrc/lib/a.c/\ndoc/x.md" "" "" "dir" "file"
        "").document := by
  refine document_ofPaths_congr "src/lib/a.c\nsrc/lib/b.c\ndoc/x.md"
    "doc//x.md\n\n src/lib/b.c\nsrc/lib/a.c/\ndoc/x.md" "" "" "dir" "file" ""
    (by decide +kernel) (by decide +kernel) fun p => ⟨fun h => ?_, fun h => ?_⟩
  · have hsub : ∀ p ∈ Text.normalPaths "src/lib/a.c\nsrc/lib/b.c\ndoc/x.md",
        p ∈ Text.normalPaths "doc//x.md\n\n src/lib/b.c\nsrc/lib/a.c/\ndoc/x.md" := by
      decide +kernel
    exact hsub p h
  · have hsub : ∀ p ∈ Text.normalPaths "doc//x.md\n\n src/lib/b.c\nsrc/lib/a.c/\ndoc/x.md",
        p ∈ Text.normalPaths "src/lib/a.c\nsrc/lib/b.c\ndoc/x.md" := by
      decide +kernel
    exact hsub p h

end Report

end ReportTree
