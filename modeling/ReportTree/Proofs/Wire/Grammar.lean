import Mathlib.Data.List.Forall2
import ReportTree.Wire.Reader

/-!
# The grammar that the reader accepts

A value spells a document if it is the payload of the document, but for the level `none`, which may
be spelled by its name. `canonical` takes that freedom out of a value; the readers then accept the
fields of the payload and nothing else.

* `canonicalFields_eq_treeFields_iff`, `canonicalFields_eq_messageFields_iff`,
  `canonicalFields_eq_tabFields_iff`: each reader accepts the fields of what it returns, all of them
  and in their order.
* `canonicalFields_eq_documentFields_iff`: so does the reader of reports.
* `readDocument_documentFields`: what is written for a document is read as that document.
-/

namespace ReportTree.Wire

/-! ## One spelling -/

/-- The value of the field `name`, where the level `none` is spelled as it is written. -/
def levelAsWritten (name : Text) : Json → Json
  | .text t =>
    .text (if name = Field.level ∧ t = Level.none.name then Level.none.wireName else t)
  | v => v

mutual

/-- The value in which every level `none` is spelled as it is written. -/
def canonical : Json → Json
  | .array items => .array (canonicalItems items)
  | .object fields => .object (canonicalFields fields)
  | v => v

/-- The items of an array in their only spelling. -/
def canonicalItems : List Json → List Json
  | [] => []
  | v :: vs => canonical v :: canonicalItems vs

/-- The fields of an object in their only spelling. -/
def canonicalFields : Fields → Fields
  | [] => []
  | (name, v) :: fields => (name, levelAsWritten name (canonical v)) :: canonicalFields fields

end

/-- The value of the field `name` in its only spelling. -/
def canonicalAt (name : Text) (v : Json) : Json := levelAsWritten name (canonical v)

theorem canonicalFields_eq_nil_iff {fields : Fields} :
    canonicalFields fields = [] ↔ fields = [] := by
  cases fields <;> simp [canonicalFields]

theorem canonicalFields_eq_cons_iff {fields more : Fields} {name : Text} {v : Json} :
    canonicalFields fields = (name, v) :: more ↔
      ∃ w rest, fields = (name, w) :: rest ∧ canonicalAt name w = v ∧
        canonicalFields rest = more := by
  cases fields with
  | nil => simp [canonicalFields]
  | cons f fields =>
    obtain ⟨key, w⟩ := f
    simp only [canonicalFields, canonicalAt, List.cons.injEq, Prod.mk.injEq]
    constructor
    · rintro ⟨⟨rfl, rfl⟩, rfl⟩
      exact ⟨w, fields, ⟨⟨rfl, rfl⟩, rfl⟩, rfl, rfl⟩
    · rintro ⟨_, _, ⟨⟨rfl, rfl⟩, rfl⟩, rfl, rfl⟩
      exact ⟨⟨rfl, rfl⟩, rfl⟩

theorem canonicalAt_eq_bool_iff {name : Text} {v : Json} {b : Bool} :
    canonicalAt name v = .bool b ↔ v = .bool b := by
  cases v <;> simp [canonicalAt, canonical, levelAsWritten]

theorem canonicalAt_eq_text_iff {name : Text} (hn : name ≠ Field.level) {v : Json} {t : Text} :
    canonicalAt name v = .text t ↔ v = .text t := by
  cases v <;> simp [canonicalAt, canonical, levelAsWritten, hn]

theorem canonicalAt_eq_textOrNull_iff {name : Text} (hn : name ≠ Field.level) {v : Json}
    {t : Option Text} : canonicalAt name v = textOrNull t ↔ v = textOrNull t := by
  cases t <;> cases v <;> simp [canonicalAt, canonical, levelAsWritten, textOrNull, hn]

theorem canonicalAt_eq_array_iff {name : Text} {v : Json} {items : List Json} :
    canonicalAt name v = .array items ↔ ∃ vs, v = .array vs ∧ canonicalItems vs = items := by
  cases v <;> simp [canonicalAt, canonical, levelAsWritten]

theorem canonical_eq_object_iff {v : Json} {fields : Fields} :
    canonical v = .object fields ↔ ∃ fs, v = .object fs ∧ canonicalFields fs = fields := by
  cases v <;> simp [canonical]

theorem canonicalAt_eq_object_iff {name : Text} {v : Json} {fields : Fields} :
    canonicalAt name v = .object fields ↔
      ∃ fs, v = .object fs ∧ canonicalFields fs = fields := by
  cases v <;> simp [canonicalAt, canonical, levelAsWritten]

/-- The field `level` holds a text that is read as the level. -/
theorem canonicalAt_level_eq_iff {v : Json} {l : Level} :
    canonicalAt Field.level v = .text l.wireName ↔
      ∃ t, v = .text t ∧ Level.read? t = some l := by
  cases v with
  | text t =>
    simp only [canonicalAt, canonical, levelAsWritten, true_and, Json.text.injEq,
      exists_eq_left', Level.read_eq_some_iff]
    have hnone : ∀ l : Level, Level.none.wireName = l.wireName ↔ l = .none := by
      intro l; cases l <;> decide
    have hname : ∀ l : Level, Level.none.name ≠ l.wireName := by
      intro l; cases l <;> decide
    by_cases ht : t = Level.none.name
    · subst ht
      simp [hnone, hname]
    · simp [ht]
  | _ => simp [canonicalAt, canonical, levelAsWritten]

/-- The strings of an array have one spelling. -/
theorem canonicalItems_eq_map_text_iff {vs : List Json} {ts : List Text} :
    canonicalItems vs = ts.map .text ↔ vs = ts.map .text := by
  induction vs generalizing ts with
  | nil => cases ts <;> simp [canonicalItems]
  | cons v vs ih =>
    cases ts with
    | nil => simp [canonicalItems]
    | cons t ts => cases v <;> simp [canonicalItems, canonical, ih]

/-- The objects of an array are spelled one by one. -/
theorem canonicalItems_eq_map_object_iff {α : Type} {vs : List Json} {as : List α}
    {put : α → Fields} :
    canonicalItems vs = as.map (fun a => .object (put a)) ↔
      ∃ objects : List Fields, vs = objects.map .object ∧
        List.Forall₂ (fun o a => canonicalFields o = put a) objects as := by
  induction vs generalizing as with
  | nil =>
    cases as with
    | nil => exact ⟨fun _ => ⟨[], rfl, .nil⟩, fun _ => rfl⟩
    | cons a as => simp [canonicalItems]
  | cons v vs ih =>
    cases as with
    | nil => simp [canonicalItems]
    | cons a as =>
      simp only [canonicalItems, List.map_cons, List.cons.injEq, ih]
      constructor
      · rintro ⟨hv, objects, rfl, hall⟩
        obtain ⟨o, rfl, ho⟩ := canonical_eq_object_iff.1 hv
        exact ⟨o :: objects, rfl, .cons ho hall⟩
      · rintro ⟨_ | ⟨o, objects⟩, hvs, hall⟩
        · cases hvs
        · cases hvs
          obtain ⟨ho, hall⟩ := List.forall₂_cons.1 hall
          exact ⟨congrArg Json.object ho, objects, rfl, hall⟩

/-! ## Reading in steps -/

theorem bind_eq_ok_iff {ε α β : Type} {x : Except ε α} {f : α → Except ε β} {b : β} :
    (x >>= f) = .ok b ↔ ∃ a, x = .ok a ∧ f a = .ok b := by
  cases x <;> simp [bind, Except.bind]

theorem pure_eq_ok_iff {ε α : Type} {a b : α} : (pure a : Except ε α) = .ok b ↔ a = b := by
  simp [pure, Except.pure]

/-- A traversal succeeds exactly where every step does. -/
theorem mapM_eq_ok_iff {ε α β : Type} {f : α → Except ε β} {as : List α} {bs : List β} :
    as.mapM f = .ok bs ↔ List.Forall₂ (fun a b => f a = .ok b) as bs := by
  induction as generalizing bs with
  | nil =>
    rw [List.mapM_nil, pure_eq_ok_iff, List.forall₂_nil_left_iff]
    exact eq_comm
  | cons a as ih =>
    simp only [List.mapM_cons, bind_eq_ok_iff, pure_eq_ok_iff, ih, List.forall₂_cons_left_iff]
    constructor
    · rintro ⟨b, hb, bs, hbs, rfl⟩
      exact ⟨b, bs, hb, hbs, rfl⟩
    · rintro ⟨b, bs, hb, hbs, rfl⟩
      exact ⟨b, hb, bs, hbs, rfl⟩

section Values

variable {name : Text} {v : Json}

theorem asString_eq_ok_iff {t : Text} : asString name v = .ok t ↔ v = .text t := by
  cases v <;> simp [asString]

theorem asStringOrNull_eq_ok_iff {t : Option Text} :
    asStringOrNull name v = .ok t ↔ v = textOrNull t := by
  cases v <;> cases t <;> simp [asStringOrNull, textOrNull]

theorem asBool_eq_ok_iff {b : Bool} : asBool name v = .ok b ↔ v = .bool b := by
  cases v <;> simp [asBool]

theorem asObject_eq_ok_iff {fields : Fields} :
    asObject name v = .ok fields ↔ v = .object fields := by
  cases v <;> simp [asObject]

theorem asArray_eq_ok_iff {items : List Json} : asArray name v = .ok items ↔ v = .array items := by
  cases v <;> simp [asArray]

theorem itemAsString_eq_ok_iff {t : Text} : itemAsString name v = .ok t ↔ v = .text t := by
  cases v <;> simp [itemAsString]

/-- Items that are read one by one make up the array that is written of them. -/
theorem forall₂_eq_map_iff {α β : Type} {as : List α} {bs : List β} {f : β → α} :
    List.Forall₂ (fun a b => a = f b) as bs ↔ as = bs.map f := by
  rw [← List.forall₂_map_right_iff (R := fun a b => a = b), List.forall₂_eq_eq_eq]

theorem asStrings_eq_ok_iff {ts : List Text} : asStrings name v = .ok ts ↔ v = textArray ts := by
  simp only [asStrings, bind_eq_ok_iff, asArray_eq_ok_iff, mapM_eq_ok_iff, itemAsString_eq_ok_iff,
    forall₂_eq_map_iff, textArray]
  constructor
  · rintro ⟨_, hv, rfl⟩
    exact hv
  · intro hv
    exact ⟨_, hv, rfl⟩

theorem asObjects_eq_ok_iff {objects : List Fields} :
    asObjects name v = .ok objects ↔ v = .array (objects.map .object) := by
  simp only [asObjects, bind_eq_ok_iff, asArray_eq_ok_iff, mapM_eq_ok_iff, asObject_eq_ok_iff,
    forall₂_eq_map_iff]
  constructor
  · rintro ⟨_, hv, rfl⟩
    exact hv
  · intro hv
    exact ⟨_, hv, rfl⟩

theorem takeAs_eq_ok_iff {α : Type} {as : Text → Json → Except Mismatch α} {fields rest : Fields}
    {a : α} : takeAs as name fields = .ok (a, rest) ↔
      ∃ v, fields = (name, v) :: rest ∧ as name v = .ok a := by
  simp only [takeAs, bind_eq_ok_iff, Prod.exists, take_eq_ok_iff, pure_eq_ok_iff, Prod.mk.injEq]
  constructor
  · rintro ⟨v, _, hf, _, ha, rfl, rfl⟩
    exact ⟨v, hf, ha⟩
  · rintro ⟨v, hf, ha⟩
    exact ⟨v, rest, hf, a, ha, rfl, rfl⟩

theorem readLevel_eq_ok_iff {t : Text} {l : Level} :
    readLevel t = .ok l ↔ Level.read? t = some l := by
  unfold readLevel
  cases Level.read? t <;> simp

theorem ofWireName?_eq_some_iff {t : Text} {k : ButtonKind} :
    ButtonKind.ofWireName? t = some k ↔ t = k.wireName := by
  constructor
  · intro h
    have := List.find?_some h
    simpa [eq_comm] using this
  · rintro rfl
    exact ButtonKind.ofWireName?_wireName k

end Values

/-! ## Objects -/

theorem readButton_eq_ok_iff {fields : Fields} {b : Button} :
    readButton fields = .ok b ↔ fields = buttonFields b := by
  obtain ⟨text, kind, clipboard, shouldClose, shouldContinue⟩ := b
  simp only [readButton, bind_eq_ok_iff, Prod.exists, takeAs_eq_ok_iff, asString_eq_ok_iff,
    exists_eq_right]
  constructor
  · rintro ⟨t, _, rfl, type, _, rfl, h⟩
    split at h
    · cases h
    · next k hk =>
      simp only [bind_eq_ok_iff, Prod.exists, takeAs_eq_ok_iff, asString_eq_ok_iff,
        asBool_eq_ok_iff, exists_eq_right, pure_eq_ok_iff, Button.mk.injEq] at h
      obtain ⟨_, _, rfl, _, _, rfl, _, _, rfl, _, hend, rfl, rfl, rfl, rfl, rfl⟩ := h
      rw [finish_eq_ok_iff.1 hend, ofWireName?_eq_some_iff.1 hk]
      rfl
  · rintro rfl
    refine ⟨_, _, rfl, _, _, rfl, ?_⟩
    rw [ButtonKind.ofWireName?_wireName]
    rfl

/-- The level of the label may be spelled in two ways, which is what `levelText` says. -/
theorem readLabel_eq_ok_iff {fields rest : Fields} {l : Label} :
    readLabel fields = .ok (l, rest) ↔ ∃ levelText, Level.read? levelText = some l.level ∧
      fields = (Field.name, .text l.name) :: (Field.icon, .text l.icon) ::
        (Field.level, .text levelText) :: (Field.expandByDefault, .bool l.expanded) ::
        (Field.details, textOrNull l.details) :: rest := by
  obtain ⟨name, icon, level, expanded, details⟩ := l
  simp only [readLabel, bind_eq_ok_iff, Prod.exists, takeAs_eq_ok_iff, asString_eq_ok_iff,
    asBool_eq_ok_iff, asStringOrNull_eq_ok_iff, readLevel_eq_ok_iff, pure_eq_ok_iff,
    exists_eq_right, Prod.mk.injEq, Label.mk.injEq]
  constructor
  · rintro ⟨_, _, rfl, _, _, rfl, levelText, _, rfl, _, hl, _, _, rfl, _, _, rfl,
      ⟨rfl, rfl, rfl, rfl, rfl⟩, rfl⟩
    exact ⟨levelText, hl, rfl⟩
  · rintro ⟨levelText, hl, rfl⟩
    exact ⟨_, _, rfl, _, _, rfl, _, _, rfl, _, hl, _, _, rfl, _, _, rfl,
      ⟨rfl, rfl, rfl, rfl, rfl⟩, rfl⟩

/-- The fields of a label, with anything after them, and the reader of labels. -/
theorem canonicalFields_eq_labelFields_append_iff {fields more : Fields} {l : Label} :
    canonicalFields fields = labelFields l ++ more ↔
      ∃ rest, readLabel fields = .ok (l, rest) ∧ canonicalFields rest = more := by
  have hname : Field.name ≠ Field.level := by decide
  have hicon : Field.icon ≠ Field.level := by decide
  have hdetails : Field.details ≠ Field.level := by decide
  simp only [labelFields, List.cons_append, List.nil_append, canonicalFields_eq_cons_iff,
    canonicalAt_eq_text_iff hname, canonicalAt_eq_text_iff hicon, canonicalAt_level_eq_iff,
    canonicalAt_eq_bool_iff, canonicalAt_eq_textOrNull_iff hdetails, readLabel_eq_ok_iff]
  constructor
  · rintro ⟨_, _, rfl, rfl, _, _, rfl, rfl, _, _, rfl, ⟨levelText, rfl, hl⟩, _, _, rfl, rfl, _,
      rest, rfl, rfl, hmore⟩
    exact ⟨rest, ⟨levelText, hl, rfl⟩, hmore⟩
  · rintro ⟨rest, ⟨levelText, hl, rfl⟩, hmore⟩
    exact ⟨_, _, rfl, rfl, _, _, rfl, rfl, _, _, rfl, ⟨levelText, rfl, hl⟩, _, _, rfl, rfl, _, rest,
      rfl, rfl, hmore⟩

/-- A button has no level, so its fields have one spelling. -/
theorem canonicalFields_eq_buttonFields_iff {fields : Fields} {b : Button} :
    canonicalFields fields = buttonFields b ↔ readButton fields = .ok b := by
  have htext : Field.text ≠ Field.level := by decide
  have htype : Field.type ≠ Field.level := by decide
  have hclipboard : Field.clipboard ≠ Field.level := by decide
  rw [readButton_eq_ok_iff]
  simp only [buttonFields, canonicalFields_eq_cons_iff, canonicalFields_eq_nil_iff,
    canonicalAt_eq_text_iff htext, canonicalAt_eq_text_iff htype, canonicalAt_eq_bool_iff,
    canonicalAt_eq_text_iff hclipboard]
  constructor
  · rintro ⟨_, _, rfl, rfl, _, _, rfl, rfl, _, _, rfl, rfl, _, _, rfl, rfl, _, _, rfl, rfl, rfl⟩
    rfl
  · rintro rfl
    exact ⟨_, _, rfl, rfl, _, _, rfl, rfl, _, _, rfl, rfl, _, _, rfl, rfl, _, _, rfl, rfl, rfl⟩

/-! ## Arrays of objects -/

theorem forall₂_congr_of_mem {α β : Type} {R S : α → β → Prop} {as : List α} {bs : List β}
    (h : ∀ a ∈ as, ∀ b, R a b ↔ S a b) : List.Forall₂ R as bs ↔ List.Forall₂ S as bs := by
  induction as generalizing bs with
  | nil => simp only [List.forall₂_nil_left_iff]
  | cons a as ih =>
    have ih' := fun bs => @ih bs fun x hx => h x (List.mem_cons_of_mem _ hx)
    simp only [List.forall₂_cons_left_iff, h a List.mem_cons_self, ih']

theorem depthOfFields_lt_of_mem {objects : List Fields} {o : Fields} (ho : o ∈ objects) :
    depth.depthOfFields o < depth.depthOfItems (objects.map .object) := by
  induction objects with
  | nil => cases ho
  | cons x objects ih =>
    simp only [List.map_cons, depth.depthOfItems, depth]
    rcases List.mem_cons.1 ho with rfl | ho
    · omega
    · have := ih ho
      omega

/-- An array of objects that `read` accepts is one of objects that spell what it returns. The
reader is only asked about objects inside of `v`. -/
theorem readObjects_eq_ok_iff {α : Type} {name : Text} {v : Json} {as : List α}
    {read : Fields → Except Mismatch α} {put : α → Fields}
    (h : ∀ o a, depth.depthOfFields o + 1 < depth v →
      (canonicalFields o = put a ↔ read o = .ok a)) :
    canonicalAt name v = .array (as.map fun a => .object (put a)) ↔
      ∃ objects, asObjects name v = .ok objects ∧ objects.mapM read = .ok as := by
  simp only [canonicalAt_eq_array_iff, canonicalItems_eq_map_object_iff, asObjects_eq_ok_iff,
    mapM_eq_ok_iff]
  have hmem : ∀ objects : List Fields, v = .array (objects.map .object) →
      (List.Forall₂ (fun o a => canonicalFields o = put a) objects as ↔
        List.Forall₂ (fun o a => read o = .ok a) objects as) := by
    rintro objects rfl
    refine forall₂_congr_of_mem fun o ho a => h o a ?_
    have := depthOfFields_lt_of_mem ho
    simp only [depth]
    omega
  constructor
  · rintro ⟨_, hv, objects, rfl, hall⟩
    exact ⟨objects, hv, (hmem objects hv).1 hall⟩
  · rintro ⟨objects, hv, hall⟩
    exact ⟨_, hv, objects, rfl, (hmem objects hv).2 hall⟩

theorem treePayloads_eq_map (ts : List Tree) :
    treePayloads ts = ts.map fun t => .object (treeFields t) := by
  induction ts with
  | nil => rfl
  | cons t ts ih => rw [treePayloads, ih, List.map_cons]

theorem messagePayloads_eq_map (ms : List Message) :
    messagePayloads ms = ms.map fun m => .object (messageFields m) := by
  induction ms with
  | nil => rfl
  | cons m ms ih => rw [messagePayloads, ih, List.map_cons]

/-! ## Trees and messages -/

theorem canonicalFields_eq_treeFields_iff {n : Nat} {fields : Fields} {t : Tree}
    (hn : depth.depthOfFields fields < n) :
    canonicalFields fields = treeFields t ↔ readTreeTo n fields = .ok t := by
  induction n generalizing fields t with
  | zero => omega
  | succ n ih =>
    obtain ⟨l, ts⟩ := t
    simp only [treeFields, readTreeTo, canonicalFields_eq_labelFields_append_iff, bind_eq_ok_iff,
      Prod.exists, pure_eq_ok_iff, Tree.node.injEq, canonicalFields_eq_cons_iff,
      canonicalFields_eq_nil_iff, takeAs_eq_ok_iff, treePayloads_eq_map]
    -- The objects below are inside of `fields`, so the induction hypothesis holds of them.
    have hchildren : ∀ v rest, readLabel fields = .ok (l, (Field.children, v) :: rest) →
        (canonicalAt Field.children v = .array (ts.map fun t => .object (treeFields t)) ↔
          ∃ objects, asObjects Field.children v = .ok objects ∧
            objects.mapM (readTreeTo n) = .ok ts) := by
      intro v rest hlabel
      obtain ⟨levelText, -, rfl⟩ := readLabel_eq_ok_iff.1 hlabel
      refine readObjects_eq_ok_iff fun o t ho => ih ?_
      simp only [depth.depthOfFields] at hn
      omega
    constructor
    · rintro ⟨_, hlabel, v, _, rfl, hv, rfl⟩
      obtain ⟨objects, ho, hts⟩ := (hchildren v [] hlabel).1 hv
      exact ⟨l, _, hlabel, objects, [], ⟨v, rfl, ho⟩, ts, hts, (), rfl, rfl, rfl⟩
    · rintro ⟨_, _, hlabel, objects, _, ⟨v, rfl, ho⟩, _, hts, _, hend, rfl, rfl⟩
      obtain rfl := finish_eq_ok_iff.1 hend
      exact ⟨_, hlabel, v, [], rfl, (hchildren v [] hlabel).2 ⟨objects, ho, hts⟩, rfl⟩

theorem canonicalAt_eq_textArray_iff {name : Text} {v : Json} {ts : List Text} :
    canonicalAt name v = textArray ts ↔ asStrings name v = .ok ts := by
  simp only [textArray, canonicalAt_eq_array_iff, canonicalItems_eq_map_text_iff,
    asStrings_eq_ok_iff]
  constructor
  · rintro ⟨_, hv, rfl⟩
    exact hv
  · intro hv
    exact ⟨_, hv, rfl⟩

theorem canonicalAt_eq_buttonArray_iff {name : Text} {v : Json} {bs : List Button} :
    canonicalAt name v = buttonArray bs ↔
      ∃ objects, asObjects name v = .ok objects ∧ objects.mapM readButton = .ok bs :=
  readObjects_eq_ok_iff fun _ _ _ => canonicalFields_eq_buttonFields_iff

theorem canonicalFields_eq_messageFields_iff {n : Nat} {fields : Fields} {m : Message}
    (hn : depth.depthOfFields fields < n) :
    canonicalFields fields = messageFields m ↔ readMessageTo n fields = .ok m := by
  induction n generalizing fields m with
  | zero => omega
  | succ n ih =>
    obtain ⟨title, icon, description, info, buttons, subHeader, subMessages⟩ := m
    have htitle : Field.title ≠ Field.level := by decide
    have hicon : Field.icon ≠ Field.level := by decide
    have hheader : Field.subMessageHeader ≠ Field.level := by decide
    have hsub : ∀ v : Json, depth v ≤ depth.depthOfFields fields →
        (canonicalAt Field.subMessages v =
            .array (subMessages.map fun m => .object (messageFields m)) ↔
          ∃ objects, asObjects Field.subMessages v = .ok objects ∧
            objects.mapM (readMessageTo n) = .ok subMessages) :=
      fun v hv => readObjects_eq_ok_iff fun o t ho => ih (by omega)
    simp only [messageFields, readMessageTo, bind_eq_ok_iff, Prod.exists, pure_eq_ok_iff,
      Message.mk.injEq, canonicalFields_eq_cons_iff, canonicalFields_eq_nil_iff, takeAs_eq_ok_iff,
      canonicalAt_eq_text_iff htitle, canonicalAt_eq_text_iff hicon,
      canonicalAt_eq_text_iff hheader, canonicalAt_eq_textArray_iff, canonicalAt_eq_buttonArray_iff,
      messagePayloads_eq_map, asString_eq_ok_iff]
    constructor
    · rintro ⟨_, _, rfl, rfl, _, _, rfl, rfl, d, _, rfl, hd, i, _, rfl, hi, b, _, rfl,
        ⟨objects, ho, hb⟩, _, _, rfl, rfl, s, _, rfl, hs, rfl⟩
      obtain ⟨objects', ho', hs⟩ := (hsub s (by simp only [depth.depthOfFields]; omega)).1 hs
      exact ⟨_, _, ⟨_, rfl, rfl⟩, _, _, ⟨_, rfl, rfl⟩, _, _, ⟨d, rfl, hd⟩, _, _, ⟨i, rfl, hi⟩,
        objects, _, ⟨b, rfl, ho⟩, _, hb, _, _, ⟨_, rfl, rfl⟩, objects', _, ⟨s, rfl, ho'⟩, _, hs, (),
        rfl, rfl, rfl, rfl, rfl, rfl, rfl, rfl⟩
    · rintro ⟨_, _, ⟨_, rfl, rfl⟩, _, _, ⟨_, rfl, rfl⟩, _, _, ⟨d, rfl, hd⟩, _, _, ⟨i, rfl, hi⟩,
        objects, _, ⟨b, rfl, ho⟩, _, hb, _, _, ⟨_, rfl, rfl⟩, objects', _, ⟨s, rfl, ho'⟩, _, hs, _,
        hend, rfl, rfl, rfl, rfl, rfl, rfl, rfl⟩
      obtain rfl := finish_eq_ok_iff.1 hend
      have hs := (hsub s (by simp only [depth.depthOfFields]; omega)).2 ⟨objects', ho', hs⟩
      exact ⟨_, _, rfl, rfl, _, _, rfl, rfl, d, _, rfl, hd, i, _, rfl, hi, b, _, rfl,
        ⟨objects, ho, hb⟩, _, _, rfl, rfl, s, _, rfl, hs, rfl⟩

/-! ## Tabs and reports -/

theorem canonicalFields_eq_tabFields_iff {fields : Fields} {t : Document.Tab} :
    canonicalFields fields = tabFields t ↔ readTab fields = .ok t := by
  obtain ⟨filter, tree⟩ := t
  simp only [tabFields, readTab, readTree, bind_eq_ok_iff, Prod.exists, pure_eq_ok_iff,
    Document.Tab.mk.injEq, canonicalFields_eq_cons_iff, canonicalFields_eq_nil_iff,
    takeAs_eq_ok_iff, canonicalAt_level_eq_iff, canonicalAt_eq_object_iff, asString_eq_ok_iff,
    asObject_eq_ok_iff, readLevel_eq_ok_iff, canonicalFields_eq_treeFields_iff (Nat.lt_succ_self _)]
  constructor
  · rintro ⟨_, _, rfl, ⟨levelText, rfl, hl⟩, _, _, rfl, ⟨object, rfl, ho⟩, rfl⟩
    exact ⟨levelText, _, ⟨_, rfl, rfl⟩, filter, hl, object, _, ⟨_, rfl, rfl⟩, tree, ho, (), rfl,
      rfl, rfl⟩
  · rintro ⟨levelText, _, ⟨_, rfl, rfl⟩, _, hl, object, _, ⟨_, rfl, rfl⟩, _, ho, _, hend, rfl, rfl⟩
    obtain rfl := finish_eq_ok_iff.1 hend
    exact ⟨_, _, rfl, ⟨levelText, rfl, hl⟩, _, _, rfl, ⟨object, rfl, ho⟩, rfl⟩

/-- The reader of reports accepts the fields of what it returns and nothing else. -/
theorem canonicalFields_eq_documentFields_iff {fields : Fields} {d : Document} :
    canonicalFields fields = documentFields d ↔ readDocument fields = .ok d := by
  obtain ⟨title, mainText, messages, tabs, buttons⟩ := d
  have htitle : Field.title ≠ Field.level := by decide
  have hmain : Field.mainText ≠ Field.level := by decide
  have hmessages : ∀ v : Json,
      (canonicalAt Field.messages v = .array (messages.map fun m => .object (messageFields m)) ↔
        ∃ objects, asObjects Field.messages v = .ok objects ∧
          objects.mapM readMessage = .ok messages) :=
    fun v => readObjects_eq_ok_iff fun o m _ =>
      canonicalFields_eq_messageFields_iff (Nat.lt_succ_self _)
  have htabs : ∀ v : Json,
      (canonicalAt Field.tabs v = .array (tabs.map fun t => .object (tabFields t)) ↔
        ∃ objects, asObjects Field.tabs v = .ok objects ∧ objects.mapM readTab = .ok tabs) :=
    fun v => readObjects_eq_ok_iff fun o t _ => canonicalFields_eq_tabFields_iff
  simp only [documentFields, readDocument, bind_eq_ok_iff, Prod.exists, pure_eq_ok_iff,
    Document.mk.injEq, canonicalFields_eq_cons_iff, canonicalFields_eq_nil_iff, takeAs_eq_ok_iff,
    canonicalAt_eq_text_iff htitle, canonicalAt_eq_text_iff hmain, messagePayloads_eq_map,
    hmessages, htabs, canonicalAt_eq_buttonArray_iff, asString_eq_ok_iff]
  constructor
  · rintro ⟨_, _, rfl, rfl, _, _, rfl, rfl, m, _, rfl, ⟨os, hos, hm⟩, t, _, rfl, ⟨os', hos', ht⟩,
      b, _, rfl, ⟨os'', hos'', hb⟩, rfl⟩
    exact ⟨_, _, ⟨_, rfl, rfl⟩, _, _, ⟨_, rfl, rfl⟩, os, _, ⟨m, rfl, hos⟩, _, hm, os', _,
      ⟨t, rfl, hos'⟩, _, ht, os'', _, ⟨b, rfl, hos''⟩, _, hb, (), rfl, rfl, rfl, rfl, rfl, rfl⟩
  · rintro ⟨_, _, ⟨_, rfl, rfl⟩, _, _, ⟨_, rfl, rfl⟩, os, _, ⟨m, rfl, hos⟩, _, hm, os', _,
      ⟨t, rfl, hos'⟩, _, ht, os'', _, ⟨b, rfl, hos''⟩, _, hb, _, hend, rfl, rfl, rfl, rfl, rfl⟩
    obtain rfl := finish_eq_ok_iff.1 hend
    exact ⟨_, _, rfl, rfl, _, _, rfl, rfl, m, _, rfl, ⟨os, hos, hm⟩, t, _, rfl, ⟨os', hos', ht⟩,
      b, _, rfl, ⟨os'', hos'', hb⟩, rfl⟩

/-! ## What is written -/

theorem canonicalFields_labelFields_append (l : Label) (more : Fields) :
    canonicalFields (labelFields l ++ more) = labelFields l ++ canonicalFields more :=
  canonicalFields_eq_labelFields_append_iff.2
    ⟨more, readLabel_eq_ok_iff.2 ⟨_, Level.read_wireName l.level, rfl⟩, rfl⟩

mutual

/-- The payload of a tree is in its only spelling. -/
theorem canonicalFields_treeFields (t : Tree) : canonicalFields (treeFields t) = treeFields t := by
  match t with
  | .node l ts =>
    rw [treeFields, canonicalFields_labelFields_append]
    simp only [canonicalFields, canonical, levelAsWritten, canonicalItems_treePayloads ts]

theorem canonicalItems_treePayloads (ts : List Tree) :
    canonicalItems (treePayloads ts) = treePayloads ts := by
  match ts with
  | [] => rfl
  | t :: ts =>
    simp only [treePayloads, canonicalItems, canonical, canonicalFields_treeFields t,
      canonicalItems_treePayloads ts]

end

theorem canonicalItems_map_object {α : Type} {put : α → Fields}
    (h : ∀ a, canonicalFields (put a) = put a) (as : List α) :
    canonicalItems (as.map fun a => .object (put a)) = as.map fun a => .object (put a) := by
  induction as with
  | nil => rfl
  | cons a as ih => simp only [List.map_cons, canonicalItems, canonical, h, ih]

theorem canonicalItems_map_text (ts : List Text) :
    canonicalItems (ts.map .text) = ts.map .text :=
  canonicalItems_eq_map_text_iff.2 rfl

theorem levelAsWritten_text {name : Text} (hn : name ≠ Field.level) (t : Text) :
    levelAsWritten name (.text t) = .text t := by
  rw [levelAsWritten, if_neg fun h => hn h.1]

theorem levelAsWritten_array (name : Text) (items : List Json) :
    levelAsWritten name (.array items) = .array items := rfl

theorem canonicalFields_buttonFields (b : Button) :
    canonicalFields (buttonFields b) = buttonFields b :=
  canonicalFields_eq_buttonFields_iff.2 (readButton_eq_ok_iff.2 rfl)

mutual

/-- The payload of a message is in its only spelling. -/
theorem canonicalFields_messageFields (m : Message) :
    canonicalFields (messageFields m) = messageFields m := by
  match m with
  | ⟨title, icon, description, info, buttons, subHeader, subMessages⟩ =>
    have htitle : Field.title ≠ Field.level := by decide
    have hicon : Field.icon ≠ Field.level := by decide
    have hheader : Field.subMessageHeader ≠ Field.level := by decide
    simp only [messageFields, textArray, buttonArray, canonicalFields, canonical,
      levelAsWritten_text htitle, levelAsWritten_text hicon, levelAsWritten_text hheader,
      levelAsWritten_array, canonicalItems_map_text,
      canonicalItems_map_object canonicalFields_buttonFields,
      canonicalItems_messagePayloads subMessages]

theorem canonicalItems_messagePayloads (ms : List Message) :
    canonicalItems (messagePayloads ms) = messagePayloads ms := by
  match ms with
  | [] => rfl
  | m :: ms =>
    simp only [messagePayloads, canonicalItems, canonical, canonicalFields_messageFields m,
      canonicalItems_messagePayloads ms]

end

theorem canonicalFields_tabFields (t : Document.Tab) :
    canonicalFields (tabFields t) = tabFields t := by
  have hlevel : levelAsWritten Field.level (canonical (.text t.filter.wireName)) =
      .text t.filter.wireName :=
    canonicalAt_level_eq_iff.2 ⟨_, rfl, Level.read_wireName _⟩
  rw [tabFields, canonicalFields, hlevel]
  simp only [canonicalFields, canonical, levelAsWritten, canonicalFields_treeFields]

/-- What is written for a document is in its only spelling. -/
theorem canonicalFields_documentFields (d : Document) :
    canonicalFields (documentFields d) = documentFields d := by
  have htitle : Field.title ≠ Field.level := by decide
  have hmain : Field.mainText ≠ Field.level := by decide
  simp only [documentFields, buttonArray, canonicalFields, canonical, levelAsWritten_text htitle,
    levelAsWritten_text hmain, levelAsWritten_array, canonicalItems_messagePayloads,
    canonicalItems_map_object canonicalFields_tabFields,
    canonicalItems_map_object canonicalFields_buttonFields]

/-- What is written for a document is read as that document. -/
theorem readDocument_documentFields (d : Document) : readDocument (documentFields d) = .ok d :=
  canonicalFields_eq_documentFields_iff.1 (canonicalFields_documentFields d)

end ReportTree.Wire
