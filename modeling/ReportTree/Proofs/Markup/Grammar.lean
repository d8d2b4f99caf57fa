import ReportTree.Markup.Line
import ReportTree.Proofs.Text.Trimming

/-!
# The grammar of outline markup

What a line of markup can say, and a way to write it down. A marker is needed only to tell the label
from one that looks like a marker, so the written form always has one where there is a label or an
icon.

* `tag?_eq_some_iff`: what begins with the tag of an icon.
* `Line.wellFormed_read`: what is read from a line is well-formed.
* `Line.read_written`: everything that is well-formed is read from its written form.
* `Line.read_grammar`: both.
-/

namespace ReportTree.Markup

variable {t token rest : Text} {l : Level}

/-! ## Icon tags -/

/-- The tag of an icon. -/
def tagged (token : Text) : Text := .scalar '$' :: (token ++ [.scalar '$'])

/-- The text begins with the tag of an icon. -/
def BeginsWithTag (t : Text) : Prop :=
  ∃ token rest, token ≠ [] ∧ (∀ c ∈ token, isTagPoint c = true) ∧ t = tagged token ++ rest

theorem tagged_append : tagged token ++ rest = .scalar '$' :: (token ++ .scalar '$' :: rest) := by
  rw [tagged, List.cons_append, List.append_assoc, List.singleton_append]

theorem tag?_eq_some_iff : tag? t = some (token, rest) ↔
    token ≠ [] ∧ (∀ c ∈ token, isTagPoint c = true) ∧ t = tagged token ++ rest := by
  constructor
  · intro h
    unfold tag? at h
    split at h
    · next u =>
      split at h
      · next c cs v htake hdrop =>
        cases h
        refine ⟨List.cons_ne_nil c cs, ?_, ?_⟩
        · rw [← htake]
          exact fun _ => List.mem_takeWhile_imp
        · rw [tagged_append, ← htake, ← hdrop, List.takeWhile_append_dropWhile]
      · cases h
    · cases h
  · rintro ⟨hne, hpoints, rfl⟩
    have hdollar : isTagPoint (.scalar '$') = false := by decide
    have htake : (token ++ .scalar '$' :: rest).takeWhile isTagPoint = token := by
      rw [List.takeWhile_append_of_pos hpoints,
        List.takeWhile_cons_of_neg (Bool.not_eq_true _ ▸ hdollar), List.append_nil]
    have hdrop : (token ++ .scalar '$' :: rest).dropWhile isTagPoint = .scalar '$' :: rest := by
      rw [List.dropWhile_append_of_pos hpoints,
        List.dropWhile_cons_of_neg (Bool.not_eq_true _ ▸ hdollar)]
    obtain ⟨c, cs, rfl⟩ := List.exists_cons_of_ne_nil hne
    rw [tagged_append, tag?, htake, hdrop]
    rfl

/-- A tag is taken off, or there is none in a text that is long enough for one. -/
theorem splitTag_cases (t : Text) :
    (splitTag t = ([], t) ∧ (BeginsWithTag t → t.length ≤ 3)) ∨
      ∃ token rest, splitTag t = (token, rest) ∧ token ≠ [] ∧
        (∀ c ∈ token, isTagPoint c = true) ∧ t = tagged token ++ rest ∧ 3 < t.length := by
  rw [splitTag]
  split
  · next hlength =>
    cases htag : tag? t with
    | none =>
      refine .inl ⟨rfl, ?_⟩
      rintro ⟨token, rest, hbegins⟩
      rw [tag?_eq_some_iff.2 hbegins] at htag
      cases htag
    | some p =>
      obtain ⟨hne, hpoints, ht⟩ := tag?_eq_some_iff.1 htag
      exact .inr ⟨p.1, p.2, rfl, hne, hpoints, ht, hlength⟩
  · next hlength => exact .inl ⟨rfl, fun _ => Nat.le_of_not_lt hlength⟩

theorem splitTag_tagged (hne : token ≠ []) (hpoints : ∀ c ∈ token, isTagPoint c = true)
    (hlength : 3 < (tagged token ++ rest).length) :
    splitTag (tagged token ++ rest) = (token, rest) := by
  rw [splitTag, if_pos hlength, tag?_eq_some_iff.2 ⟨hne, hpoints, rfl⟩, Option.getD_some]

/-! ## Level markers -/

/-- The levels that have a marker. -/
def markedLevels : List Level := [.none, .info, .warn, .error]

/-- The marker of a level. -/
def marker : Level → CodePoint
  | .error => .scalar 'x'
  | .warn => .scalar '!'
  | .info => .scalar '+'
  | _ => .scalar '-'

theorem isBlank_marker (l : Level) : (marker l).isBlank = false := by
  cases l <;> decide

theorem marker_ne_tab (l : Level) : marker l ≠ .scalar '\t' := by
  cases l <;> decide

theorem ofMarker?_marker (hl : l ∈ markedLevels) : Level.ofMarker? (marker l) = some l := by
  revert l
  decide

theorem mem_markedLevels_of_ofMarker? {c : CodePoint} (h : Level.ofMarker? c = some l) :
    l ∈ markedLevels := by
  unfold Level.ofMarker? at h
  split_ifs at h <;> (cases h; decide)

/-- A marker and the blank after it are taken off, or nothing. -/
theorem splitMarker_cases (t : Text) :
    splitMarker t = (.none, t) ∨
      ∃ c b rest l, splitMarker t = (l, rest) ∧ l ∈ markedLevels ∧ b.isBlank = true ∧
        t = c :: b :: rest := by
  unfold splitMarker
  split
  · next c b rest =>
    split
    · next l hb hl => exact .inr ⟨c, b, rest, l, rfl, mem_markedLevels_of_ofMarker? hl, hb, rfl⟩
    · exact .inl rfl
  · exact .inl rfl

/-- After a marker, a trimmed text has something else than blanks. -/
theorem trim_ne_nil_of_splitMarker {c b : CodePoint} (hb : b.isBlank = true)
    (ht : Text.Trimmed (c :: b :: rest)) : rest.trim ≠ [] := by
  intro hnil
  rw [Text.trim_eq_nil_iff] at hnil
  have hblank : ((b :: rest).getLast (List.cons_ne_nil b rest)).isBlank = true := by
    rcases List.mem_cons.1 (List.getLast_mem (List.cons_ne_nil b rest)) with h | h
    · rw [h]
      exact hb
    · exact hnil _ h
  have hlast := ht.2 ((b :: rest).getLast (List.cons_ne_nil b rest)) (by
    rw [List.getLast?_cons_cons, List.getLast?_eq_some_getLast (List.cons_ne_nil b rest)]
    rfl)
  rw [hblank] at hlast
  cases hlast

/-! ## Lengths -/

/-- A tag that is taken off makes a text shorter. -/
theorem length_splitTag (t : Text) : (splitTag t).2.length ≤ t.length ∧
    ((splitTag t).1 ≠ [] → (splitTag t).2.length < t.length) := by
  rcases splitTag_cases t with ⟨htag, -⟩ | ⟨token, rest, htag, -, -, ht, -⟩
  · rw [htag]
    exact ⟨Nat.le_refl _, fun hne => absurd rfl hne⟩
  · have hlength := congrArg List.length ht
    rw [tagged_append] at hlength
    simp only [List.length_cons, List.length_append] at hlength
    rw [htag]
    exact ⟨by dsimp only; omega, fun _ => by dsimp only; omega⟩

/-- So does the marker of a level. -/
theorem length_splitMarker (t : Text) : (splitMarker t).2.length ≤ t.length ∧
    ((splitMarker t).1 ≠ .none → (splitMarker t).2.length < t.length) := by
  rcases splitMarker_cases t with h | ⟨c, b, rest, l, h, -, -, rfl⟩
  · rw [h]
    exact ⟨Nat.le_refl _, fun hne => absurd rfl hne⟩
  · rw [h]
    simp only [List.length_cons]
    exact ⟨by omega, fun _ => by omega⟩

/-! ## What a line can say -/

/-- The line without the tabs in front of it. -/
def unindented (t : Text) : Text := t.dropWhile (· == .scalar '\t')

theorem length_eq_depthOf_add (t : Text) : t.length = depthOf t + (unindented t).length := by
  rw [depthOf, unindented, ← List.length_append, List.takeWhile_append_dropWhile]

namespace Line

/-- A line of markup can say this. -/
structure WellFormed (line : Line) : Prop where
  level_marked : line.level ∈ markedLevels
  name_trimmed : line.name.Trimmed
  /-- The icon is empty, or it is a token that a tag can hold. -/
  icon_points : ∀ c ∈ line.icon, isTagPoint c = true
  /-- A marker needs something after it. -/
  level_eq_none : line.name = [] → line.icon = [] → line.level = .none
  /-- Three code points are no tag if nothing follows. -/
  icon_length : line.name = [] → line.icon.length ≠ 1
  /-- A label that begins with a tag is too short to be read as one. -/
  name_length : line.icon = [] → BeginsWithTag line.name → line.name.length ≤ 3

/-- The label as it is written, with the tag of the icon before it. -/
def writtenLabel (line : Line) : Text :=
  (if line.icon = [] then [] else tagged line.icon ++ [.scalar ' ']) ++ line.name

/-- The canonical form of a line. -/
def written (line : Line) : Text :=
  List.replicate line.depth (.scalar '\t') ++
    if line.name = [] ∧ line.icon = [] then []
    else marker line.level :: .scalar ' ' :: line.writtenLabel

/-- A line is read in two steps. -/
theorem read_of_split {body label icon : Text}
    (hbody : (unindented t).trim = body)
    (hmarker : splitMarker body = (l, label)) (htag : splitTag label.trim = (icon, rest)) :
    read t = { depth := depthOf t, level := l, icon := icon, name := rest.trim } := by
  rw [read, ← unindented, hbody, hmarker]
  dsimp only
  rw [htag]

/-- What is not in the label makes it shorter than the line. -/
theorem length_name_read (t : Text) : (read t).name.length + (read t).depth ≤ t.length ∧
    ((read t).level ≠ .none ∨ (read t).icon ≠ [] → (read t).name.length < t.length) := by
  obtain ⟨⟨level, label⟩, hsplit⟩ : ∃ p, splitMarker (unindented t).trim = p := ⟨_, rfl⟩
  obtain ⟨⟨icon, rest⟩, htag⟩ : ∃ p, splitTag label.trim = p := ⟨_, rfl⟩
  have htabs := length_eq_depthOf_add t
  have hbody := Text.length_trim_le (unindented t)
  have hlabel := Text.length_trim_le label
  have hrest := Text.length_trim_le rest
  obtain ⟨hmarkerle, hmarkerlt⟩ := length_splitMarker (unindented t).trim
  obtain ⟨htagle, htaglt⟩ := length_splitTag label.trim
  rw [hsplit] at hmarkerle hmarkerlt
  rw [htag] at htagle htaglt
  rw [read_of_split rfl hsplit htag]
  dsimp only at *
  refine ⟨by omega, ?_⟩
  rintro (hlevel | hicon)
  · have hlt := hmarkerlt hlevel
    omega
  · have hlt := htaglt hicon
    omega

/-- What is read from a line is well-formed. -/
theorem wellFormed_read (t : Text) : (read t).WellFormed := by
  obtain ⟨body, hbody⟩ : ∃ body, (unindented t).trim = body := ⟨_, rfl⟩
  have htrimmed : body.Trimmed := hbody ▸ Text.trimmed_trim _
  -- The text after the marker is trimmed, and there is some if there was a marker.
  obtain ⟨l, label, hsplit, hl, hlabel⟩ : ∃ l label, splitMarker body = (l, label) ∧
      l ∈ markedLevels ∧ (label.trim = [] → l = .none) := by
    rcases splitMarker_cases body with h | ⟨c, b, rest, l, h, hl, hb, rfl⟩
    · exact ⟨_, _, h, by decide, fun _ => rfl⟩
    · exact ⟨l, rest, h, hl, fun hnil => absurd hnil (trim_ne_nil_of_splitMarker hb htrimmed)⟩
  have hlabeltrimmed := label.trimmed_trim
  rcases splitTag_cases label.trim with ⟨htag, hlength⟩ |
    ⟨token, rest, htag, hne, hpoints, htoken, hlength⟩
  · rw [read_of_split hbody hsplit htag]
    exact {
      level_marked := hl
      name_trimmed := Text.trimmed_trim _
      icon_points := fun c hc => absurd hc List.not_mem_nil
      level_eq_none := fun hname _ => hlabel (by rwa [Text.trim_trim] at hname)
      icon_length := fun _ => by simp
      name_length := fun _ hbegins => by
        rw [Text.trim_trim] at hbegins ⊢
        exact hlength hbegins }
  · rw [read_of_split hbody hsplit htag]
    exact {
      level_marked := hl
      name_trimmed := Text.trimmed_trim _
      icon_points := hpoints
      level_eq_none := fun _ hicon => absurd hicon hne
      icon_length := fun hname hone => by
        -- Blanks after the tag would end the trimmed text.
        rw [Text.trim_eq_nil_iff] at hname
        cases hrest : rest.getLast? with
        | none =>
          rw [List.getLast?_eq_none_iff] at hrest
          rw [htoken, hrest, tagged] at hlength
          simp only [List.append_nil, List.length_cons, List.length_append, List.length_nil]
            at hlength
          dsimp only at hone
          omega
        | some c =>
          have hlast : c ∈ label.trim.getLast? := by
            rw [htoken, List.getLast?_append, hrest]
            rfl
          have hblank := hname c (List.mem_of_getLast? hrest)
          rw [hlabeltrimmed.2 c hlast] at hblank
          cases hblank
      name_length := fun hicon => absurd hicon hne }

/-! ## Writing and reading -/

section Tabs

variable (ht : ∀ c ∈ t.head?, c ≠ CodePoint.scalar '\t')
include ht

theorem depthOf_replicate_append (n : Nat) :
    depthOf (List.replicate n (.scalar '\t') ++ t) = n := by
  have hnone : t.takeWhile (· == .scalar '\t') = [] := by
    cases t with
    | nil => rfl
    | cons c t => exact List.takeWhile_cons_of_neg (by simp [ht c rfl])
  rw [depthOf, List.takeWhile_append_of_pos, hnone, List.append_nil, List.length_replicate]
  intro c hc
  rw [List.eq_of_mem_replicate hc]
  rfl

theorem unindented_replicate_append (n : Nat) :
    unindented (List.replicate n (.scalar '\t') ++ t) = t := by
  have hall : t.dropWhile (· == .scalar '\t') = t := by
    cases t with
    | nil => rfl
    | cons c t => exact List.dropWhile_cons_of_neg (by simp [ht c rfl])
  rw [unindented, List.dropWhile_append_of_pos, hall]
  intro c hc
  rw [List.eq_of_mem_replicate hc]
  rfl

/-- Tabs in front of a line count for its depth alone. -/
theorem read_indented {body label icon : Text} (n : Nat) (hbody : Text.trim t = body)
    (hmarker : splitMarker body = (l, label)) (htag : splitTag label.trim = (icon, rest)) :
    read (List.replicate n (.scalar '\t') ++ t) =
      { depth := n, level := l, icon := icon, name := rest.trim } := by
  rw [read_of_split (by rwa [unindented_replicate_append ht]) hmarker htag,
    depthOf_replicate_append ht]

end Tabs

section WellFormed

variable {line : Line} (h : line.WellFormed)
include h

/-- The written label begins with a dollar sign or with the label. -/
theorem WellFormed.head?_writtenLabel : ∀ c ∈ line.writtenLabel.head?, c.isBlank = false := by
  rw [writtenLabel]
  split
  · exact h.name_trimmed.1
  · intro c hc
    rw [tagged, List.cons_append, List.cons_append, List.head?_cons] at hc
    cases hc
    decide

theorem WellFormed.trim_writtenLabel : line.writtenLabel.trim = line.writtenLabel.trimEnd := by
  rw [Text.trim, Text.trimStart_eq_self h.head?_writtenLabel]

/-- The tag is taken off the written label, and nothing else. -/
theorem WellFormed.splitTag_writtenLabel :
    ∃ rest, splitTag line.writtenLabel.trim = (line.icon, rest) ∧ rest.trim = line.name := by
  by_cases hicon : line.icon = []
  · have hlabel : line.writtenLabel = line.name := by
      rw [writtenLabel, if_pos hicon, List.nil_append]
    rw [hlabel, h.name_trimmed.trim_eq, hicon]
    refine ⟨line.name, ?_, h.name_trimmed.trim_eq⟩
    rcases splitTag_cases line.name with ⟨htag, -⟩ | ⟨token, rest, -, hne, hpoints, hname, hlength⟩
    · exact htag
    · have hle := h.name_length hicon ⟨token, rest, hne, hpoints, hname⟩
      exact absurd hle (Nat.not_le_of_lt hlength)
  · have hpos : 0 < line.icon.length := List.length_pos_of_ne_nil hicon
    by_cases hname : line.name = []
    · have hlabel : line.writtenLabel.trimEnd = tagged line.icon ++ [] := by
        rw [writtenLabel, if_neg hicon, hname, List.append_nil, List.append_nil]
        rw [Text.trimEnd, ← List.rdropWhile, List.rdropWhile_concat_pos _ _ _ (by decide)]
        refine Text.trimEnd_eq_self fun c hc => ?_
        rw [tagged, ← List.cons_append, List.getLast?_concat] at hc
        cases hc
        decide
      have hone := h.icon_length hname
      rw [h.trim_writtenLabel, hlabel]
      refine ⟨[], splitTag_tagged hicon h.icon_points ?_, hname.symm⟩
      simp only [tagged, List.append_nil, List.length_cons, List.length_append, List.length_nil]
      omega
    · have hlabel : line.writtenLabel.trimEnd = tagged line.icon ++ .scalar ' ' :: line.name := by
        rw [writtenLabel, if_neg hicon, List.append_assoc, List.singleton_append]
        refine Text.trimEnd_eq_self fun c hc => ?_
        have hlast := List.getLast?_eq_some_getLast hname
        rw [List.getLast?_append, List.getLast?_cons_of_ne_nil hname, hlast] at hc
        exact h.name_trimmed.2 c (hlast ▸ hc)
      have hnamepos : 0 < line.name.length := List.length_pos_of_ne_nil hname
      rw [h.trim_writtenLabel, hlabel]
      refine ⟨.scalar ' ' :: line.name, splitTag_tagged hicon h.icon_points ?_, ?_⟩
      · simp only [tagged, List.length_cons, List.length_append, List.length_nil]
        omega
      · rw [Text.trim, Text.trimStart, List.dropWhile_cons_of_pos (by decide)]
        exact h.name_trimmed.trim_eq

/-- Something is left of the written label where there is a label or an icon. -/
theorem WellFormed.trim_writtenLabel_ne_nil (hne : ¬(line.name = [] ∧ line.icon = [])) :
    line.writtenLabel.trim ≠ [] := by
  intro hnil
  obtain ⟨rest, htag, hrest⟩ := h.splitTag_writtenLabel
  have hnone : splitTag [] = ([], []) := rfl
  rw [hnil, hnone, Prod.mk.injEq] at htag
  rw [← htag.2] at hrest
  exact hne ⟨hrest.symm, htag.1.symm⟩

/-- Everything that is well-formed is read from its written form. -/
theorem WellFormed.read_written : read line.written = line := by
  obtain ⟨rest, htag, hrest⟩ := h.splitTag_writtenLabel
  rw [written]
  by_cases hempty : line.name = [] ∧ line.icon = []
  · have hlevel := h.level_eq_none hempty.1 hempty.2
    rw [if_pos hempty, read_indented (by simp) line.depth rfl rfl rfl]
    obtain ⟨depth, level, icon, name⟩ := line
    obtain ⟨rfl, rfl⟩ : name = [] ∧ icon = [] := hempty
    obtain rfl : level = .none := hlevel
    rfl
  · have hhead : ∀ c ∈ (marker line.level :: .scalar ' ' :: line.writtenLabel).head?,
        c ≠ .scalar '\t' := by
      rintro c ⟨⟩
      exact marker_ne_tab line.level
    have htrim : Text.trim (marker line.level :: .scalar ' ' :: line.writtenLabel) =
        marker line.level :: .scalar ' ' :: line.writtenLabel.trim := by
      have hleft := h.trim_writtenLabel_ne_nil hempty
      rw [h.trim_writtenLabel] at hleft ⊢
      rw [Text.trim, Text.trimStart_eq_self]
      · exact Text.trimEnd_append hleft [marker line.level, .scalar ' ']
      · rintro c ⟨⟩
        exact isBlank_marker line.level
    have hmarker : splitMarker (marker line.level :: .scalar ' ' :: line.writtenLabel.trim) =
        (line.level, line.writtenLabel.trim) := by
      have hblank : (CodePoint.scalar ' ').isBlank = true := by decide
      simp only [splitMarker, hblank, ofMarker?_marker h.level_marked]
    rw [← Text.trim_trim] at htag
    rw [if_neg hempty, read_indented hhead line.depth htrim hmarker htag, hrest]

end WellFormed

/-- What lines of markup say is well-formed, and everything that is well-formed is read from its
canonical line. -/
theorem read_grammar :
    (∀ t, (read t).WellFormed) ∧ ∀ line : Line, line.WellFormed → read line.written = line :=
  ⟨wellFormed_read, fun _ h => h.read_written⟩

/-- A label that looks like a marker and a tag, after a tag. -/
theorem read_grammar_tagged :
    (read "\t\t! $jar$ x $tick$ -").WellFormed ∧
      WellFormed ⟨2, .none, "jar", "! $x$"⟩ ∧
      read (written ⟨2, .none, "jar", "! $x$"⟩) = ⟨2, .none, "jar", "! $x$"⟩ := by
  have hline : WellFormed ⟨2, .none, "jar", "! $x$"⟩ := {
    level_marked := by decide
    name_trimmed := by decide
    icon_points := by decide
    level_eq_none := fun hname => by cases hname
    icon_length := fun hname => by cases hname
    name_length := fun hicon => by cases hicon }
  exact ⟨read_grammar.1 _, hline, read_grammar.2 _ hline⟩

end Line

end ReportTree.Markup
