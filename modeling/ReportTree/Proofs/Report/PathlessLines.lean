import Mathlib.Data.List.Induction
import ReportTree.Proofs.Forest.RootIcon
import ReportTree.Proofs.Report.PathOrder
import ReportTree.Proofs.Text.LineSelection

/-!
# Lines without a path

A line of nothing but slashes has no segment, and the node that it names is the root. All it does is
to give the root the icon of files. Then the root is no folder any more, and what is below it is
neither merged nor sorted. When the root has become a folder again afterwards, or was to have this
icon anyway, such lines change nothing.

* `Forest.inserted_filter`: they change nothing but the icon of the root.
* `Forest.icon_inserted`: the icon that the root has in the end.
* `Report.ofPaths_pathLines_iff`: when a report does not change if such lines are left out.
-/

namespace ReportTree

/-- There is a segment in the path. -/
def Forest.hasSegment (path : Text) : Bool := !(segments path).isEmpty

/-- There is a segment in the line, after blanks around it are taken off. -/
def Text.hasPath (line : Text) : Bool := Forest.hasSegment line.trim

/-- The text without the lines that have no path. -/
def Text.pathLines (t : Text) : Text := t.keepLines hasPath

@[simp] theorem Forest.hasSegment_iff {path : Text} :
    hasSegment path = true ↔ segments path ≠ [] := by
  simp [hasSegment]

theorem Text.hasPath_iff {line : Text} : line.hasPath = true ↔ Forest.segments line.trim ≠ [] :=
  Forest.hasSegment_iff

namespace Forest

variable {folder file tab p : Text} {paths : List Text} {f g : Forest} {i j r : NodeId} {x : Text}

/-- The tree of paths that were inserted one after the other. -/
def inserted (folder file tab : Text) (paths : List Text) : Forest :=
  paths.foldl (fun f path => (f.fileNode 0 path folder file).2) (empty.addRoot tab).2

theorem inserted_concat : inserted folder file tab (paths ++ [p]) =
    ((inserted folder file tab paths).fileNode 0 p folder file).2 := by
  rw [inserted, List.foldl_concat, inserted]

/-- The root is there, and nothing lists it. -/
theorem inserted_spec (folder file tab : Text) (paths : List Text) :
    (inserted folder file tab paths).Coherent ∧ 0 < (inserted folder file tab paths).size ∧
      (inserted folder file tab paths).Topmost 0 := by
  induction paths using List.reverseRecOn with
  | nil =>
    have hroot : (empty.addRoot tab).2.Coherent := coherent_empty.addRoot tab
    exact ⟨hroot, by simp [inserted], fun j => hroot.not_mem_children rfl⟩
  | append_singleton paths p ih =>
    obtain ⟨hf, hpos, htop⟩ := ih
    have hgrows := growsTo_fileNode hf hpos p folder file
    rw [inserted_concat]
    exact ⟨hgrows.coherent hf, Nat.lt_of_lt_of_le hpos hgrows.growth.size_le,
      htop.keeps (keeps_fileNode hf hpos p folder file) hpos⟩

/-- Paths without segments change nothing but the icon of the root. -/
theorem exists_inserted_filter (folder file tab : Text) (paths : List Text) :
    ∃ x, inserted folder file tab paths =
      (inserted folder file tab (paths.filter hasSegment)).setIcon 0 x := by
  induction paths using List.reverseRecOn with
  | nil => exact ⟨_, (setIcon_self ..).symm⟩
  | append_singleton paths p ih =>
    obtain ⟨x, hx⟩ := ih
    rw [inserted_concat, hx]
    cases hp : segments p with
    | nil =>
      refine ⟨file, ?_⟩
      rw [fileNode_of_segments_eq_nil hp, setIcon_setIcon]
      simp [hasSegment, hp]
    | cons s names =>
      obtain ⟨hf, hpos, htop⟩ := inserted_spec folder file tab (paths.filter hasSegment)
      have hnode := congrArg Prod.snd (htop.fileNode_setIcon hf hpos hp folder file x)
      have hkept : (paths ++ [p]).filter hasSegment = paths.filter hasSegment ++ [p] := by
        simp [hasSegment, hp]
      rw [hkept, inserted_concat]
      exact ⟨_, hnode⟩

theorem inserted_filter (folder file tab : Text) (paths : List Text) :
    inserted folder file tab paths =
      (inserted folder file tab (paths.filter hasSegment)).setIcon 0
        ((inserted folder file tab paths).label 0).icon := by
  obtain ⟨x, hx⟩ := exists_inserted_filter folder file tab paths
  rw [hx, icon_setIcon (inserted_spec folder file tab _).2.1]

/-! ## The icon of the root -/

/-- A path makes a child of the root, and no path without segments comes after it. -/
def Reopens (folder file tab : Text) (paths : List Text) : Prop :=
  ∃ before p after, paths = before ++ p :: after ∧ (∀ q ∈ p :: after, segments q ≠ []) ∧
    ∃ s ∈ (segments p).head?, (inserted folder file tab before).childNamed? 0 s = none

/-- A list with another element at the end is taken apart at this element or before it. -/
theorem concat_eq_append_cons_iff {α : Type} {as before after : List α} {a b : α} :
    as ++ [a] = before ++ b :: after ↔ as = before ∧ a = b ∧ after = [] ∨
      ∃ rest, as = before ++ b :: rest ∧ after = rest ++ [a] := by
  cases after using List.reverseRecOn with
  | nil => simp [List.append_singleton_inj]
  | append_singleton rest c =>
    rw [← List.cons_append, ← List.append_assoc, List.append_singleton_inj]
    constructor
    · rintro ⟨h, rfl⟩
      exact .inr ⟨rest, h, rfl⟩
    · rintro (⟨-, -, h⟩ | ⟨rest', h, h'⟩)
      · exact absurd h (List.append_ne_nil_of_right_ne_nil rest (List.cons_ne_nil c []))
      · obtain ⟨rfl, rfl⟩ := List.append_singleton_inj.1 h'
        exact ⟨h, rfl⟩

/-- With a path without segments at the end, the root is a file. -/
theorem not_reopens_concat (hp : segments p = []) :
    ¬Reopens folder file tab (paths ++ [p]) := by
  rintro ⟨before, q, after, heq, hsegments, -⟩
  rcases concat_eq_append_cons_iff.1 heq with ⟨-, rfl, -⟩ | ⟨rest, -, rfl⟩
  · exact hsegments p List.mem_cons_self hp
  · exact hsegments p (by simp) hp

/-- Another path at the end may make a child of the root. -/
theorem reopens_concat_iff {s : Text} {names : List Text} (hp : segments p = s :: names) :
    Reopens folder file tab (paths ++ [p]) ↔
      Reopens folder file tab paths ∨ (inserted folder file tab paths).childNamed? 0 s = none := by
  have hne : segments p ≠ [] := hp ▸ List.cons_ne_nil s names
  constructor
  · rintro ⟨before, q, after, heq, hsegments, hq⟩
    rcases concat_eq_append_cons_iff.1 heq with ⟨rfl, rfl, -⟩ | ⟨rest, rfl, rfl⟩
    · right
      simpa [hp] using hq
    · refine .inl ⟨before, q, rest, rfl, fun q' hq' => hsegments q' ?_, hq⟩
      rw [← List.cons_append]
      exact List.mem_append_left _ hq'
  · rintro (⟨before, q, after, rfl, hsegments, hq⟩ | hnone)
    · refine ⟨before, q, after ++ [p], by simp, ?_, hq⟩
      rw [← List.cons_append, List.forall_mem_append]
      exact ⟨hsegments, List.forall_mem_singleton.2 hne⟩
    · exact ⟨paths, p, [], rfl, List.forall_mem_singleton.2 hne, s, by simp [hp], hnone⟩

open Classical in
/-- The root is a file after a path without segments. Without an icon, it is a folder as soon as it
gets a child. -/
theorem icon_inserted (folder file tab : Text) (paths : List Text) :
    ((inserted folder file tab paths).label 0).icon =
      if file ≠ [] ∧ ∃ p ∈ paths, segments p = [] then file
      else if Reopens folder file tab paths then folder else [] := by
  induction paths using List.reverseRecOn with
  | nil =>
    have hnot : ¬Reopens folder file tab [] := by
      rintro ⟨before, p, after, h, -⟩
      exact absurd h.symm (List.append_ne_nil_of_right_ne_nil before (List.cons_ne_nil p after))
    rw [if_neg (by simp), if_neg hnot]
    rfl
  | append_singleton paths p ih =>
    obtain ⟨hf, hpos, htop⟩ := inserted_spec folder file tab paths
    rw [inserted_concat]
    cases hp : segments p with
    | nil =>
      rw [fileNode_of_segments_eq_nil hp, icon_setIcon hpos, if_neg (not_reopens_concat hp)]
      by_cases hfile : file = [] <;> simp [hfile, hp]
    | cons s names =>
      have hexists : (∃ q ∈ paths ++ [p], segments q = []) ↔ ∃ q ∈ paths, segments q = [] := by
        simp [or_and_right, exists_or, hp]
      rw [htop.icon_fileNode hf hpos hp, ih, iconAfter]
      simp only [hexists]
      by_cases hfile : file ≠ [] ∧ ∃ q ∈ paths, segments q = []
      · rw [if_pos hfile, if_pos hfile, if_neg fun h => hfile.1 h.2]
      · rw [if_neg hfile, if_neg hfile]
        by_cases hreopens : Reopens folder file tab paths <;>
          by_cases hnone : (inserted folder file tab paths).childNamed? 0 s = none <;>
            simp [reopens_concat_iff hp, hreopens, hnone]

/-- Where every path has a segment, the first one makes a child of the root. -/
theorem reopens_iff_of_forall (h : ∀ p ∈ paths, segments p ≠ []) :
    Reopens folder file tab paths ↔ paths ≠ [] := by
  constructor
  · rintro ⟨before, p, after, rfl, -⟩
    exact List.append_ne_nil_of_right_ne_nil before (List.cons_ne_nil p after)
  · intro hne
    obtain ⟨p, after, rfl⟩ := List.exists_cons_of_ne_nil hne
    obtain ⟨s, names, hp⟩ := List.exists_cons_of_ne_nil (h p List.mem_cons_self)
    exact ⟨[], p, after, rfl, h, s, by simp [hp], rfl⟩

theorem Reopens.exists_mem (h : Reopens folder file tab paths) : ∃ p ∈ paths, segments p ≠ [] := by
  obtain ⟨before, p, after, rfl, hsegments, -⟩ := h
  exact ⟨p, by simp, hsegments p List.mem_cons_self⟩

/-- Merging changes no icon. -/
theorem icon_mergeFolders : ((f.mergeFolders i folder).label j).icon = (f.label j).icon := by
  rw [mergeFolders, (folding_mergeFoldersTo folder f.size f i).label_eq j]

/-! ## The lines of a text -/

theorem writtenPaths_pathLines (paths : Text) :
    writtenPaths paths.pathLines = (writtenPaths paths).filter hasSegment := by
  rw [writtenPaths, Text.pathLines, Text.lines_keepLines rfl, writtenPaths, List.filter_map,
    List.filter_map, List.filter_map, List.filter_filter, List.filter_filter]
  congr 2
  funext line
  simp only [Function.comp_apply, Text.hasPath]
  exact Bool.and_comm _ _

theorem exists_mem_writtenPaths_iff {P : Text → Prop} {paths : Text} :
    (∃ p ∈ writtenPaths paths, P p) ↔ ∃ line ∈ paths.lines, line.trim ≠ [] ∧ P line.trim := by
  simp [writtenPaths, and_assoc]

theorem exists_hasPath_iff {paths : Text} : (∃ line ∈ paths.lines, line.hasPath) ↔
    ∃ p ∈ writtenPaths paths, segments p ≠ [] := by
  simp only [exists_mem_writtenPaths_iff, Text.hasPath_iff]
  refine exists_congr fun line => and_congr_right fun _ => (and_iff_right_of_imp ?_).symm
  intro h hnil
  rw [hnil] at h
  exact h rfl

/-- Without such lines the root is a folder, unless nothing is below it. -/
theorem icon_pathLines (folder file tab paths : Text) :
    ((inserted folder file tab (writtenPaths paths.pathLines)).label 0).icon =
      if ∃ line ∈ paths.lines, line.hasPath then folder else [] := by
  have hall : ∀ p ∈ writtenPaths paths.pathLines, segments p ≠ [] := by
    simp [writtenPaths_pathLines]
  have hpath : writtenPaths paths.pathLines ≠ [] ↔ ∃ line ∈ paths.lines, line.hasPath := by
    simp [writtenPaths_pathLines, exists_hasPath_iff]
  have hnone : ¬∃ p ∈ writtenPaths paths.pathLines, segments p = [] := by simpa using hall
  rw [icon_inserted, if_neg fun h => hnone h.2]
  simp only [reopens_iff_of_forall hall, hpath]

end Forest

namespace Report

theorem ofPaths_eq (paths title tab folder file mainText : Text) :
    ofPaths paths title tab folder file mainText =
      { ofTab title mainText tab (fun f _ => f) with
        forest := (Forest.inserted folder file tab (Forest.writtenPaths paths)).mergeFolders 0
          folder } := rfl

/-- Nothing but the icon of the root may change. -/
theorem ofPaths_pathLines_iff_icon (paths title tab folder file mainText : Text) :
    ofPaths paths.pathLines title tab folder file mainText =
        ofPaths paths title tab folder file mainText ↔
      ((Forest.inserted folder file tab (Forest.writtenPaths paths.pathLines)).label 0).icon =
        ((Forest.inserted folder file tab (Forest.writtenPaths paths)).label 0).icon := by
  rw [ofPaths_eq, ofPaths_eq]
  constructor
  · intro h
    have hicon := congrArg (fun r => (r.forest.label 0).icon) h
    dsimp only at hicon
    rwa [Forest.icon_mergeFolders, Forest.icon_mergeFolders] at hicon
  · intro h
    have hsame := Forest.inserted_filter folder file tab (Forest.writtenPaths paths)
    rw [← Forest.writtenPaths_pathLines, ← h, Forest.setIcon_self] at hsame
    rw [hsame]

/-- Leaving out the lines without a path changes nothing if and only if they are blank, or the root
has the icon of files without them, or this icon is none and the root gets another child after the
last one of them. -/
theorem ofPaths_pathLines_iff (paths title tab folder file mainText : Text) :
    ofPaths paths.pathLines title tab folder file mainText =
        ofPaths paths title tab folder file mainText ↔
      (∀ line ∈ paths.lines, line.trim ≠ [] → line.hasPath) ∨
        file = (if ∃ line ∈ paths.lines, line.hasPath then folder else []) ∨
        file = [] ∧ Forest.Reopens folder file tab (Forest.writtenPaths paths) := by
  have hslashes : (∀ line ∈ paths.lines, line.trim ≠ [] → line.hasPath) ↔
      ¬∃ p ∈ Forest.writtenPaths paths, Forest.segments p = [] := by
    simp [Forest.exists_mem_writtenPaths_iff, Text.hasPath_iff]
  rw [ofPaths_pathLines_iff_icon, hslashes]
  by_cases hexists : ∃ p ∈ Forest.writtenPaths paths, Forest.segments p = []
  · have hicon := Forest.icon_inserted folder file tab (Forest.writtenPaths paths)
    rw [Forest.icon_pathLines, or_iff_right (not_not_intro hexists)]
    by_cases hfile : file = []
    · subst hfile
      rw [if_neg fun h => h.1 rfl] at hicon
      by_cases hreopens : Forest.Reopens folder [] tab (Forest.writtenPaths paths)
      · rw [if_pos hreopens] at hicon
        rw [hicon, if_pos (Forest.exists_hasPath_iff.2 hreopens.exists_mem)]
        exact iff_of_true rfl (.inr ⟨rfl, hreopens⟩)
      · rw [if_neg hreopens] at hicon
        rw [hicon, or_iff_left fun h => hreopens h.2]
        exact eq_comm
    · rw [if_pos ⟨hfile, hexists⟩] at hicon
      rw [hicon, or_iff_left fun h => hfile h.1]
      exact eq_comm
  · have hsame : Forest.writtenPaths paths.pathLines = Forest.writtenPaths paths := by
      rw [Forest.writtenPaths_pathLines, List.filter_eq_self]
      simpa using hexists
    simp [hsame, hexists]

/-- A line with a slash makes the root a file, so that nothing is sorted. -/
theorem not_ofPaths_pathLines :
    ¬∀ paths title tab folder file mainText : Text,
      ofPaths paths.pathLines title tab folder file mainText =
        ofPaths paths title tab folder file mainText := by
  intro h
  have hicon := (ofPaths_pathLines_iff_icon "src/b\nsrc/a\n/\n" "" "" "dir" "file" "").1
    (h "src/b\nsrc/a\n/\n" "" "" "dir" "file" "")
  revert hicon
  decide +kernel

end Report

end ReportTree
