import ReportTree.Proofs.Settings.Layering

/-!
# Settings files that cannot be read

A file that is found and cannot be read should count for nothing, and only a file that is named
should end the loading, by its refusal. This is so for files that cannot be opened or whose text
breaks the rules of writing. It is not so for bytes that are no text, for definitions that do not go
together, and for values with too many digits to be warned of: they end the loading in either kind
of file.

* `Source.Escapes.add`, `add_of_not_escapes`: one more file.
* `load_documented_iff`: when loading ends only as it should.
* `not_documented_of_twice`: a file that sets one setting twice, with which it does not.
-/

namespace ReportTree.Settings

open Toml (Table)

/-- The table with settings of a file, if the file can be read and has one. -/
def Source.held? (d : Disk) (s : Source) : Option Table :=
  (readFile d s.path).toOption.bind (settingsOf? s.path)

/-- What ends the loading, although it is no refusal of a file. -/
inductive Source.Escapes (d : Disk) (s : Source) : Prop
  /-- The text that should be a path is none. -/
  | path {flaw : Path.Flaw} (h : d.readText s.path = .error (.invalidPath flaw))
  /-- The bytes are no text. -/
  | bytes {fault : Utf8.Fault} (h : d.readText s.path = .error (.notUtf8 fault))
  /-- The text is well written, but two of its definitions do not go together. -/
  | conflict {t : Text} {c : Toml.Conflict} (h : d.readText s.path = .ok t)
      (hconflict : Toml.read t = .error (.conflict c))
  /-- A value that is to be passed over has too many digits to be warned of. -/
  | long {t : Table} {p : Text × Toml.Value} (h : s.table? d = some t) (hp : p ∈ rejections t)
      (hlong : p.2.isLong = true)

/-- Loading comes to the file `s`: all files in front of it are loaded. -/
def Reached (d : Disk) (ss : List Source) (s : Source) : Prop :=
  ∃ before after, ss = before ++ s :: after ∧ ∀ b ∈ before, b.Loadable d

/-- How loading may end. The tables of the files that can be read go on top of the layer `lower`,
and all that are named can be read; or one that is named is refused. -/
def Documented (d : Disk) (ss : List Source) (lower : Layer) : Except Stopped Loaded → Prop
  | .ok l => Stacked (ss.filterMap (Source.held? d)) lower l.layer ∧
      ∀ s ∈ ss, s.named = true → ∃ t, readFile d s.path = .ok t
  | .error stopped => ∃ s ∈ ss, s.named = true ∧
      ∃ e, readFile d s.path = .error (.refused e) ∧ stopped.error = .refused e

variable {d : Disk} {s : Source} {ss : List Source} {lower : Layer} {l l' : Loaded}

/-! ## One file -/

/-- A file is read or refused, or it escapes. -/
theorem readFile_cases (d : Disk) (s : Source) :
    (∃ t, readFile d s.path = .ok t) ∨ (∃ e, readFile d s.path = .error (.refused e)) ∨
      s.Escapes d := by
  unfold readFile
  cases htext : d.readText s.path with
  | ok t =>
    dsimp only
    cases hread : Toml.read t with
    | ok table => exact .inl ⟨table, rfl⟩
    | error fault =>
      cases fault with
      | malformed => exact .inr (.inl ⟨_, rfl⟩)
      | conflict c => exact .inr (.inr (.conflict htext hread))
  | error e =>
    cases e with
    | closed e => exact .inr (.inl ⟨_, rfl⟩)
    | invalidPath flaw => exact .inr (.inr (.path htext))
    | notUtf8 fault => exact .inr (.inr (.bytes htext))

/-- A table with a value that has too many digits to be warned of ends the loading. -/
theorem add_of_long {t : Table} (ht : s.table? d = some t)
    (hlong : ∃ p ∈ rejections t, p.2.isLong = true) (l : Loaded) :
    ∃ log, l.add d s = .error ⟨.unwritable, log⟩ := by
  rw [Source.table?] at ht
  rw [Loaded.add]
  cases hread : s.read d with
  | error e =>
    rw [hread] at ht
    cases ht
  | ok r =>
    obtain ⟨inner, records⟩ := r
    rw [hread] at ht
    dsimp only at ht ⊢
    rw [ht]
    exact ⟨_, if_pos ((any_isUnwritable t _).2 hlong)⟩

/-- An escape ends the loading and is no refusal. -/
theorem Source.Escapes.add (h : s.Escapes d) (l : Loaded) :
    ∃ stopped, l.add d s = .error stopped ∧ ∀ e, stopped.error ≠ .refused e := by
  have hread {e : LoadError} (hfile : readFile d s.path = .error e) (he : ∀ r, e ≠ .refused r) :
      ∃ stopped, l.add d s = .error stopped ∧ ∀ r, stopped.error ≠ .refused r := by
    rw [Loaded.add, Source.read, hfile]
    cases e with
    | refused r => exact absurd rfl (he r)
    | _ => exact ⟨_, rfl, he⟩
  cases h with
  | path h => exact hread (by rw [readFile, h]) fun _ h => by cases h
  | bytes h => exact hread (by rw [readFile, h]) fun _ h => by cases h
  | @conflict t c h hconflict =>
    refine hread (e := .conflict c) ?_ fun _ h => by cases h
    rw [readFile, h]
    dsimp only
    rw [hconflict]
  | long h hp hlong =>
    obtain ⟨log, hadd⟩ := add_of_long h ⟨_, hp, hlong⟩ l
    exact ⟨_, hadd, fun _ h => by cases h⟩

/-- A file that is found and refused counts for nothing. -/
theorem stacked_nil_of_empty {lower upper : Layer} (h : Stacked [[]] lower upper) :
    Stacked [] lower upper where
  indent_eq := h.indent_eq
  folderIcon_eq := h.folderIcon_eq
  fileIcon_eq := h.fileIcon_eq
  failOn_eq := h.failOn_eq
  warnings_eq := h.warnings_eq

/-- The settings of a file that escapes in no way are taken over, unless the file is named and
refused. -/
theorem add_of_not_escapes (h : ¬s.Escapes d) (l : Loaded) :
    (∃ l', l.add d s = .ok l' ∧ Stacked (s.held? d).toList l.layer l'.layer ∧
      (s.named = true → ∃ t, readFile d s.path = .ok t)) ∨
    s.named = true ∧ ∃ e, readFile d s.path = .error (.refused e) ∧
      l.add d s = .error ⟨.refused e, l.log⟩ := by
  have hshort : ∀ t, s.table? d = some t → ∀ p ∈ rejections t, p.2.isLong = false :=
    fun t ht p hp => Bool.eq_false_iff.2 fun hlong => h (.long ht hp hlong)
  rcases readFile_cases d s with ⟨t, ht⟩ | ⟨e, he⟩ | hescapes
  · have hread : s.read d = .ok (t, []) := by rw [Source.read, ht]
    obtain ⟨l', hadd, hstacked⟩ := Source.Loadable.add ⟨⟨_, hread⟩, hshort⟩ l
    refine .inl ⟨l', hadd, ?_, fun _ => ⟨t, ht⟩⟩
    have htable : s.held? d = s.table? d := by
      rw [Source.held?, Source.table?, ht, hread]
      rfl
    rwa [htable]
  · cases hnamed : s.named with
    | true =>
      refine .inr ⟨rfl, e, he, ?_⟩
      rw [Loaded.add, Source.read, he]
      simp only [hnamed, if_true]
    | false =>
      have hread : s.read d = .ok ([], [{ level := Log.error, text := e.message }]) := by
        rw [Source.read, he]
        simp only [hnamed, Bool.false_eq_true, if_false]
      obtain ⟨l', hadd, hstacked⟩ := Source.Loadable.add ⟨⟨_, hread⟩, hshort⟩ l
      refine .inl ⟨l', hadd, ?_, fun h => by cases h⟩
      have hheld : s.held? d = none := by rw [Source.held?, he]; rfl
      rw [hheld]
      rw [Source.table?, hread] at hstacked
      dsimp only at hstacked
      rw [settingsOf?] at hstacked
      split at hstacked
      · exact hstacked
      · exact stacked_nil_of_empty hstacked
  · exact absurd hescapes h

/-! ## All files -/

theorem documented_cons {k : Loaded} (hnamed : s.named = true → ∃ t, readFile d s.path = .ok t)
    (hstacked : Stacked (s.held? d).toList lower k.layer) {r : Except Stopped Loaded}
    (h : Documented d ss k.layer r) : Documented d (s :: ss) lower r := by
  cases r with
  | ok l =>
    have htables : (s :: ss).filterMap (Source.held? d) =
        (s.held? d).toList ++ ss.filterMap (Source.held? d) := by
      rw [List.filterMap_cons]
      cases s.held? d <;> rfl
    refine ⟨?_, List.forall_mem_cons.2 ⟨hnamed, h.2⟩⟩
    rw [htables]
    exact hstacked.trans h.1
  | error stopped =>
    obtain ⟨q, hq, hrefused⟩ := h
    exact ⟨q, List.mem_cons_of_mem s hq, hrefused⟩

theorem Reached.cons (hs : s.Loadable d) {q : Source} (h : Reached d ss q) :
    Reached d (s :: ss) q := by
  obtain ⟨before, after, rfl, hbefore⟩ := h
  exact ⟨s :: before, after, rfl, List.forall_mem_cons.2 ⟨hs, hbefore⟩⟩

/-- While no file escapes, loading ends as it should. -/
theorem documented_foldlM (h : ∀ s, Reached d ss s → ¬s.Escapes d) (l : Loaded) :
    Documented d ss l.layer (ss.foldlM (Loaded.add d) l) := by
  induction ss generalizing l with
  | nil => exact ⟨.refl _, fun _ hs => absurd hs List.not_mem_nil⟩
  | cons s ss ih =>
    have hfirst : ¬s.Escapes d := h s ⟨[], ss, rfl, fun _ hb => absurd hb List.not_mem_nil⟩
    rw [List.foldlM_cons]
    rcases add_of_not_escapes hfirst l with ⟨k, hadd, hstacked, hnamed⟩ | ⟨hnamed, e, he, hadd⟩
    · rw [hadd]
      exact documented_cons hnamed hstacked
        (ih (fun q hq => h q (hq.cons (loadable_of_add hadd))) k)
    · rw [hadd]
      exact ⟨s, List.mem_cons_self, hnamed, e, he, rfl⟩

/-- A file that escapes ends the loading when it is reached. -/
theorem Reached.not_documented (h : Reached d ss s) (hs : s.Escapes d) (l : Loaded) :
    ¬Documented d ss lower (ss.foldlM (Loaded.add d) l) := by
  obtain ⟨before, after, rfl, hbefore⟩ := h
  obtain ⟨k, hk, -⟩ := exists_foldlM_add hbefore l
  obtain ⟨stopped, hadd, hrefused⟩ := hs.add k
  have hload : (before ++ s :: after).foldlM (Loaded.add d) l = .error stopped := by
    rw [List.foldlM_append, hk]
    change (s :: after).foldlM (Loaded.add d) k = .error stopped
    rw [List.foldlM_cons, hadd]
    rfl
  rw [hload]
  rintro ⟨q, -, -, e, -, he⟩
  exact hrefused e he

/-- Loading ends with the settings of all files that can be read, or with the refusal of a file that
is named, if and only if no file to which it comes has bytes that are no text, definitions that do
not go together, or a value with too many digits to be warned of. -/
theorem load_documented_iff (d : Disk) (place : Text) (named : List Text) (ignoreFound : Bool) :
    Documented d (sourcesFor d place named ignoreFound) .defaults
      (load d place named ignoreFound) ↔
    ∀ s, Reached d (sourcesFor d place named ignoreFound) s → ¬s.Escapes d :=
  ⟨fun h _ hs hescapes => hs.not_documented hescapes _ h, fun h => documented_foldlM h _⟩

/-- A settings file that sets the indentation twice. -/
def twiceDisk : Disk := fun path =>
  if path = ("./statustree.toml" : Text) then
    .file (Utf8.encodeLoose "[codec]\nindent = 1\nindent = 2")
  else .missing

/-- The file is found and is no table, and that ends the loading. -/
theorem not_documented_of_twice :
    ¬Documented twiceDisk (sourcesFor twiceDisk "." [] false) .defaults
      (load twiceDisk "." [] false) := by
  have hsources : sourcesFor twiceDisk "." [] false = [⟨"./statustree.toml", false⟩] := rfl
  have htext : twiceDisk.readText "./statustree.toml" =
      .ok "[codec]\nindent = 1\nindent = 2" := rfl
  obtain ⟨c, hconflict⟩ :
      ∃ c, Toml.read "[codec]\nindent = 1\nindent = 2" = .error (.conflict c) := by
    have hconflict : (match Toml.read "[codec]\nindent = 1\nindent = 2" with
        | .error (.conflict _) => true
        | _ => false) = true := by decide +kernel
    split at hconflict
    · next c hc => exact ⟨c, hc⟩
    · cases hconflict
  refine Reached.not_documented (s := ⟨"./statustree.toml", false⟩) ⟨[], [], hsources, ?_⟩ ?_ _
  · exact fun _ hb => absurd hb List.not_mem_nil
  · exact .conflict htext hconflict

end ReportTree.Settings
