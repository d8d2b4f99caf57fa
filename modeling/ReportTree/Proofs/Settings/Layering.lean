import Mathlib.Logic.Basic
import ReportTree.CommandLine.Answer

/-!
# Which layer decides

Every setting is resolved on its own: what is given for the run wins, then the last of the tables
that sets it to one of its values, then the default. A value that is none of the setting's is passed
over and warned of once.

* `Setting.resolve`: the value that tables give a setting.
* `Setting.looked_integer`, `Setting.looked_text`, `Setting.looked_level`: what the look-ups find.
* `Stacked.add`: one more file, one more table.
* `load_resolves_iff`: what a run comes to, unless a value has too many digits to be warned of.
* `not_load_of_long_icon`: loading ends at such a value.
-/

namespace ReportTree.Settings

open Toml (Table Value)

/-! ## Settings one by one -/

/-- A setting: the section and the key under which a table holds it, and what the values stand for
that it takes. -/
structure Setting (α : Type) where
  area : Text
  key : Text
  accepts : Value → Option α

/-- The place that a warning is about, and the value there. -/
def Warning.subject : Warning → Text × Value
  | wrongKind _ place value => (place, value)
  | tooSmall place value _ => (place, .integer value)
  | unknownLevel place name => (place, .text name)

theorem Warning.isUnwritable_eq (w : Warning) : w.isUnwritable = w.subject.2.isLong := by
  cases w <;> rfl

namespace Setting

/-- The indentation, a number that is not negative. -/
def indent : Setting Int where
  area := "codec"
  key := "indent"
  accepts
    | .integer n => if 0 ≤ n then some n else none
    | _ => none

/-- An icon, any text. -/
def icon (key : Text) : Setting Text where
  area := "files"
  key := key
  accepts
    | .text t => some t
    | _ => none

/-- The icon of folders. -/
def folderIcon : Setting Text := icon "folder_icon"

/-- The icon of files. -/
def fileIcon : Setting Text := icon "file_icon"

/-- The threshold of a check, the name of a level. -/
def failOn : Setting Level where
  area := "check"
  key := "fail_on"
  accepts
    | .text t => Level.ofUserText? t
    | _ => none

section

variable {α : Type} (s : Setting α)

/-- Where the setting stands, for messages. -/
def place : Text := Settings.place ("[" ++ s.area ++ "]") s.key

/-- The value that a table holds for the setting: its section is a table that holds the key. -/
def given? (t : Table) : Option Value :=
  match t.get? s.area with
  | some (.table fields) => present? fields s.key
  | _ => none

/-- What a table sets the setting to. -/
def value? (t : Table) : Option α := (s.given? t).bind s.accepts

/-- The value that a table holds for the setting although it takes no such value, with the place
where it stands. -/
def rejections (t : Table) : List (Text × Value) :=
  match s.given? t with
  | some v => if (s.accepts v).isNone then [(s.place, v)] else []
  | none => []

/-- The value that several tables give the setting, where later ones win. -/
def resolve (tables : List Table) : Option α := tables.reverse.findSome? s.value?

theorem resolve_append (ts us : List Table) :
    s.resolve (ts ++ us) = (s.resolve us).or (s.resolve ts) := by
  rw [resolve, List.reverse_append, List.findSome?_append]
  rfl

theorem resolve_singleton (t : Table) : s.resolve [t] = s.value? t := by
  rw [resolve, List.reverse_singleton, List.findSome?_singleton]

/-- A value that is none of the setting's hides nothing, and 0 is a value. -/
example : indent.resolve [[("codec", .table [("indent", .integer 4)])],
    [("codec", .table [("indent", .integer 0)])],
    [("codec", .table [("indent", .bool true)])]] = some 0 := by decide

/-- A look-up finds what the table sets the setting to, and warns of a value that is passed over. -/
structure Looked (t : Table) (r : Except Warning (Option α)) : Prop where
  found_eq : Layer.found r = s.value? t
  warned_eq : (Layer.warned r).map Warning.subject = s.rejections t

variable {s} {t : Table} {v : Value}

theorem Looked.absent (hv : s.given? t = none) : s.Looked t (.ok none) where
  found_eq := by rw [value?, hv, Layer.found, Option.bind_none]
  warned_eq := by rw [rejections, hv, Layer.warned, List.map_nil]

theorem Looked.accepted {x : α} (hv : s.given? t = some v) (hx : s.accepts v = some x) :
    s.Looked t (.ok (some x)) where
  found_eq := by rw [value?, hv, Layer.found, Option.bind_some, hx]
  warned_eq := by simp [rejections, hv, Layer.warned, hx]

theorem Looked.rejected {w : Warning} (hv : s.given? t = some v) (hx : s.accepts v = none)
    (hw : w.subject = (s.place, v)) : s.Looked t (.error w) where
  found_eq := by rw [value?, hv, Layer.found, Option.bind_some, hx]
  warned_eq := by simp [rejections, hv, Layer.warned, hx, hw]

end

/-- A section without points in its name is looked up as a whole. -/
theorem present?_table {area : Text} (harea : CodePoint.scalar '.' ∉ area) (t : Table)
    (key : Text) :
    present? (table t area) key =
      match t.get? area with
      | some (.table fields) => present? fields key
      | _ => none := by
  rw [table, Text.splitOn_of_not_mem harea]
  cases hv : t.get? area with
  | none =>
    simp only [tableAt, hv]
    rfl
  | some v =>
    simp only [tableAt, hv]
    cases v <;> rfl

theorem looked_integer (t : Table) :
    indent.Looked t (integer (table t "codec") "[codec]" "indent" (some 0)) := by
  have hpresent : present? (table t "codec") "indent" = indent.given? t :=
    present?_table (by decide) t "indent"
  rw [integer, hpresent]
  cases hv : indent.given? t with
  | none => exact .absent hv
  | some v =>
    cases v with
    | integer n =>
      dsimp only
      split
      · next hn => exact .rejected hv (if_neg (Int.not_le.2 hn)) rfl
      · next hn => exact .accepted hv (if_pos (Int.not_lt.1 hn))
    | _ => exact .rejected hv rfl rfl

theorem looked_text (t : Table) (key : Text) :
    (icon key).Looked t (text (table t "files") "[files]" key) := by
  have hpresent : present? (table t "files") key = (icon key).given? t :=
    present?_table (by decide) t key
  rw [text, hpresent]
  cases hv : (icon key).given? t with
  | none => exact .absent hv
  | some v =>
    cases v with
    | text x => exact .accepted hv rfl
    | _ => exact .rejected hv rfl rfl

theorem looked_level (t : Table) :
    failOn.Looked t (level (table t "check") "[check]" "fail_on") := by
  have hpresent : present? (table t "check") "fail_on" = failOn.given? t :=
    present?_table (by decide) t "fail_on"
  rw [level, text, hpresent]
  cases hv : failOn.given? t with
  | none => exact .absent hv
  | some v =>
    cases v with
    | text x =>
      dsimp only
      cases hl : Level.ofUserText? x with
      | some l => exact .accepted hv hl
      | none => exact .rejected hv hl rfl
    | _ => exact .rejected hv rfl rfl

end Setting

/-- What a table holds for settings that do not take it, with the places, setting by setting. -/
def rejections (t : Table) : List (Text × Value) :=
  Setting.indent.rejections t ++ Setting.folderIcon.rejections t ++
    Setting.fileIcon.rejections t ++ Setting.failOn.rejections t

theorem map_subject_warnings (t : Table) (source : Option Text) :
    (Layer.ofTable t source).warnings.map Warning.subject = rejections t := by
  simp only [Layer.ofTable, List.map_append, rejections, (Setting.looked_integer t).warned_eq,
    (Setting.looked_text t _).warned_eq, (Setting.looked_level t).warned_eq]
  rfl

/-- Some value that is warned of cannot be written if it is too long. -/
theorem any_isUnwritable (t : Table) (source : Option Text) :
    (Layer.ofTable t source).warnings.any Warning.isUnwritable = true ↔
      ∃ p ∈ rejections t, p.2.isLong = true := by
  rw [← map_subject_warnings t source, List.any_eq_true]
  simp only [List.mem_map, exists_exists_and_eq_and, Warning.isUnwritable_eq]

/-! ## Layers -/

/-- The layer `l` is what tables make of the layer `lower` below them. -/
structure Stacked (tables : List Table) (lower l : Layer) : Prop where
  indent_eq : l.indent = (Setting.indent.resolve tables).or lower.indent
  folderIcon_eq : l.folderIcon = (Setting.folderIcon.resolve tables).or lower.folderIcon
  fileIcon_eq : l.fileIcon = (Setting.fileIcon.resolve tables).or lower.fileIcon
  failOn_eq : l.failOn = (Setting.failOn.resolve tables).or lower.failOn
  warnings_eq : l.warnings.map Warning.subject =
    lower.warnings.map Warning.subject ++ tables.flatMap rejections

theorem Stacked.refl (l : Layer) : Stacked [] l l where
  indent_eq := rfl
  folderIcon_eq := rfl
  fileIcon_eq := rfl
  failOn_eq := rfl
  warnings_eq := (List.append_nil _).symm

theorem Stacked.trans {ts us : List Table} {a b c : Layer} (h : Stacked ts a b)
    (h' : Stacked us b c) : Stacked (ts ++ us) a c where
  indent_eq := by rw [h'.indent_eq, h.indent_eq, Setting.resolve_append, Option.or_assoc]
  folderIcon_eq := by
    rw [h'.folderIcon_eq, h.folderIcon_eq, Setting.resolve_append, Option.or_assoc]
  fileIcon_eq := by rw [h'.fileIcon_eq, h.fileIcon_eq, Setting.resolve_append, Option.or_assoc]
  failOn_eq := by rw [h'.failOn_eq, h.failOn_eq, Setting.resolve_append, Option.or_assoc]
  warnings_eq := by
    rw [h'.warnings_eq, h.warnings_eq, List.flatMap_append, List.append_assoc]

theorem stacked_ofTable (t : Table) (source : Option Text) (lower : Layer) :
    Stacked [t] lower ((Layer.ofTable t source).onto lower) where
  indent_eq := by
    rw [Layer.indent_onto, Setting.resolve_singleton, ← (Setting.looked_integer t).found_eq]
    rfl
  folderIcon_eq := by
    rw [Layer.folderIcon_onto, Setting.resolve_singleton, Setting.folderIcon,
      ← (Setting.looked_text t _).found_eq]
    rfl
  fileIcon_eq := by
    rw [Layer.fileIcon_onto, Setting.resolve_singleton, Setting.fileIcon,
      ← (Setting.looked_text t _).found_eq]
    rfl
  failOn_eq := by
    rw [Layer.failOn_onto, Setting.resolve_singleton, ← (Setting.looked_level t).found_eq]
    rfl
  warnings_eq := by
    rw [Layer.warnings_onto, List.map_append, map_subject_warnings, List.flatMap_singleton]

/-! ## Loading -/

/-- The files that are loaded for the directory `place`, in order. -/
def sourcesFor (d : Disk) (place : Text) (named : List Text) (ignoreFound : Bool) : List Source :=
  (if ignoreFound then [] else foundSources d place) ++
    named.map fun path => { path := Path.normal path, named := true }

/-- The table with settings of a file, if it has one. -/
def Source.table? (d : Disk) (s : Source) : Option Table :=
  match s.read d with
  | .ok (t, _) => settingsOf? s.path t
  | .error _ => none

/-- The file is read, and no value has too many digits to be warned of. -/
structure Source.Loadable (d : Disk) (s : Source) : Prop where
  read : ∃ r, s.read d = .ok r
  short : ∀ t, s.table? d = some t → ∀ p ∈ rejections t, p.2.isLong = false

variable {d : Disk} {s : Source} {ss : List Source} {l l' : Loaded}

/-- One more file is one more table, if it has one. -/
theorem Source.Loadable.add (h : s.Loadable d) (l : Loaded) :
    ∃ l', l.add d s = .ok l' ∧ Stacked (s.table? d).toList l.layer l'.layer := by
  obtain ⟨⟨t, records⟩, hread⟩ := h.read
  have htable : s.table? d = settingsOf? s.path t := by rw [table?, hread]
  rw [Loaded.add, hread]
  cases hsettings : settingsOf? s.path t with
  | none =>
    rw [htable, hsettings]
    simp only [hsettings]
    exact ⟨_, rfl, .refl _⟩
  | some inner =>
    have hwritable :
        ¬(Layer.ofTable inner (some s.path)).warnings.any Warning.isUnwritable = true := by
      rw [any_isUnwritable]
      rintro ⟨p, hp, hlong⟩
      rw [h.short inner (htable.trans hsettings) p hp] at hlong
      cases hlong
    rw [htable, hsettings]
    simp only [hsettings, if_neg hwritable]
    exact ⟨_, rfl, stacked_ofTable inner _ _⟩

theorem loadable_of_add (h : l.add d s = .ok l') : s.Loadable d := by
  rw [Loaded.add] at h
  cases hread : s.read d with
  | error e =>
    rw [hread] at h
    cases h
  | ok r =>
    obtain ⟨t, records⟩ := r
    refine ⟨⟨_, hread⟩, fun inner hinner p hp => ?_⟩
    have hsettings : settingsOf? s.path t = some inner := by
      rwa [Source.table?, hread] at hinner
    rw [hread] at h
    simp only [hsettings] at h
    split at h
    · cases h
    · next hwritable =>
      refine Bool.eq_false_iff.2 fun hlong => hwritable ?_
      exact (any_isUnwritable inner _).2 ⟨p, hp, hlong⟩

/-- Files are loaded one after the other. -/
theorem exists_foldlM_add (h : ∀ s ∈ ss, s.Loadable d) (l : Loaded) :
    ∃ l', ss.foldlM (Loaded.add d) l = .ok l' ∧
      Stacked (ss.filterMap (Source.table? d)) l.layer l'.layer := by
  induction ss generalizing l with
  | nil => exact ⟨l, rfl, .refl _⟩
  | cons s ss ih =>
    obtain ⟨k, hk, hfirst⟩ := (h s List.mem_cons_self).add l
    obtain ⟨l', hl', hrest⟩ := ih (fun q hq => h q (List.mem_cons_of_mem s hq)) k
    have htables : (s :: ss).filterMap (Source.table? d) =
        (s.table? d).toList ++ ss.filterMap (Source.table? d) := by
      rw [List.filterMap_cons]
      cases s.table? d <;> rfl
    refine ⟨l', ?_, ?_⟩
    · rw [List.foldlM_cons, hk]
      exact hl'
    · rw [htables]
      exact hfirst.trans hrest

theorem loadable_of_foldlM_add (h : ss.foldlM (Loaded.add d) l = .ok l') :
    ∀ s ∈ ss, s.Loadable d := by
  induction ss generalizing l with
  | nil => exact fun _ hs => absurd hs List.not_mem_nil
  | cons s ss ih =>
    rw [List.foldlM_cons] at h
    cases hadd : l.add d s with
    | error e =>
      rw [hadd] at h
      cases h
    | ok k =>
      rw [hadd] at h
      exact List.forall_mem_cons.2 ⟨loadable_of_add hadd, ih h⟩

/-! ## The settings of a run -/

/-- What is given for one run and wins over every layer. -/
structure Given where
  indent : Option Int := none
  folderIcon : Option Text := none
  fileIcon : Option Text := none
  failOn : Option Level := none

namespace Given

/-- What is given, as overrides of any kind. -/
def overrides (g : Given) : Overrides where
  indent := g.indent.map .integer
  folderIcon := g.folderIcon.map .text
  fileIcon := g.fileIcon.map .text
  failOn := g.failOn

/-- What is given, as a layer. -/
def layer (g : Given) : Layer where
  indent := g.indent
  folderIcon := g.folderIcon
  fileIcon := g.fileIcon
  failOn := g.failOn

/-- What a command asks for. -/
def ofRequest (r : CommandLine.Request) : Given := { indent := r.indent, failOn := r.failOn }

/-- Nothing that is given needs a conversion. -/
theorem override_overrides (g : Given) (l : Layer) :
    l.override g.overrides = .ok (g.layer.onto l) := by
  obtain ⟨indent, folderIcon, fileIcon, failOn⟩ := g
  cases indent <;> cases folderIcon <;> cases fileIcon <;> rfl

theorem effective_eq (s : Settings) (r : CommandLine.Request) :
    CommandLine.effective s r = ((ofRequest r).layer.onto s.layer).settings := rfl

end Given

/-- What is given wins over the tables, a later table over an earlier one, and any table over the
defaults. There is one warning of each value that a table holds for a setting that does not take
it. -/
structure Resolved (tables : List Table) (g : Given) (s : Settings) : Prop where
  indent_eq : s.indent = g.indent.getD ((Setting.indent.resolve tables).getD defaultIndent)
  folderIcon_eq :
    s.folderIcon = g.folderIcon.getD ((Setting.folderIcon.resolve tables).getD defaultFolderIcon)
  fileIcon_eq :
    s.fileIcon = g.fileIcon.getD ((Setting.fileIcon.resolve tables).getD defaultFileIcon)
  failOn_eq : s.failOn = g.failOn.getD ((Setting.failOn.resolve tables).getD defaultFailOn)
  warnings_eq : s.warnings.map Warning.subject = tables.flatMap rejections

/-- One setting of a run: given, or set by a table, or by default. -/
theorem getD_or_getD {α : Type} (given set : Option α) (fallback : α) :
    (given.or (some ((set.or (some fallback)).getD fallback))).getD fallback =
      given.getD (set.getD fallback) := by
  cases given <;> cases set <;> rfl

theorem Stacked.resolved {tables : List Table} {l : Layer} (h : Stacked tables .defaults l)
    (g : Given) : Resolved tables g (g.layer.onto l.settings.layer).settings where
  indent_eq := by
    rw [← getD_or_getD, ← show Layer.defaults.indent = some defaultIndent from rfl, ← h.indent_eq]
    rfl
  folderIcon_eq := by
    rw [← getD_or_getD, ← show Layer.defaults.folderIcon = some defaultFolderIcon from rfl,
      ← h.folderIcon_eq]
    rfl
  fileIcon_eq := by
    rw [← getD_or_getD, ← show Layer.defaults.fileIcon = some defaultFileIcon from rfl,
      ← h.fileIcon_eq]
    rfl
  failOn_eq := by
    rw [← getD_or_getD, ← show Layer.defaults.failOn = some defaultFailOn from rfl, ← h.failOn_eq]
    rfl
  warnings_eq := (congrArg (List.map Warning.subject) (List.append_nil _)).trans h.warnings_eq

/-- The settings that are loaded are resolved one by one, whatever is given for the run and whatever
a command asks for, if and only if all files are read and no value has too many digits to be warned
of. -/
theorem load_resolves_iff (d : Disk) (place : Text) (named : List Text) (ignoreFound : Bool) :
    (∃ loaded, load d place named ignoreFound = .ok loaded ∧
      (∀ g : Given, ∃ l, loaded.layer.settings.layer.override g.overrides = .ok l ∧
        Resolved ((sourcesFor d place named ignoreFound).filterMap (Source.table? d)) g
          l.settings) ∧
      ∀ r : CommandLine.Request,
        Resolved ((sourcesFor d place named ignoreFound).filterMap (Source.table? d))
          (.ofRequest r) (CommandLine.effective loaded.layer.settings r)) ↔
      ∀ s ∈ sourcesFor d place named ignoreFound, s.Loadable d := by
  constructor
  · rintro ⟨loaded, hload, -⟩
    exact loadable_of_foldlM_add hload
  · intro h
    obtain ⟨loaded, hload, hstacked⟩ := exists_foldlM_add h { layer := .defaults }
    refine ⟨loaded, hload, fun g => ⟨_, g.override_overrides _, hstacked.resolved g⟩, fun r => ?_⟩
    rw [Given.effective_eq]
    exact hstacked.resolved (.ofRequest r)

/-- A settings file whose icon of folders is a number of 4335 digits. The file has it in base
sixteen, which is read at any length. -/
def longIconDisk : Disk := fun path =>
  if path = ("./statustree.toml" : Text) then
    .file ("files.folder_icon = 0x1".toUTF8.toList ++ List.replicate 3600 48)
  else .missing

set_option maxRecDepth 100000 in
/-- All files are read, and yet a value that is to be passed over ends the loading. -/
theorem not_load_of_long_icon :
    (∀ s ∈ sourcesFor longIconDisk "." [] false, ∃ r, s.read longIconDisk = .ok r) ∧
      ¬∃ loaded, load longIconDisk "." [] false = .ok loaded := by
  have hread : (sourcesFor longIconDisk "." [] false).all
      (fun s => (s.read longIconDisk).toBool) = true := by
    decide +kernel
  have hload : (load longIconDisk "." [] false).toBool = false := by
    decide +kernel
  constructor
  · intro s hs
    have hs' := List.all_eq_true.1 hread s hs
    cases hr : s.read longIconDisk with
    | ok r => exact ⟨r, rfl⟩
    | error e =>
      rw [hr] at hs'
      cases hs'
  · rintro ⟨loaded, hloaded⟩
    rw [hloaded] at hload
    cases hload

end ReportTree.Settings
