import ReportTree.Json.Reader
import ReportTree.Proofs.Json.StringLiteral

/-!
# Reading what was written

A value without numbers reads back as itself with the surrogate pairs in its texts joined, whatever
the layout it was written in.

* `Reads s w s'`: reading the text `w` takes the reader from one state to another. Texts are read
  one after the other (`Reads.append`).
* `reads_writeAt`: where a value may come, a written value is read as one.
* `read_write_append`: the round trip of a document.
* `write_joined`: joining the pairs of a value changes nothing of what is written for it.
-/

namespace ReportTree.Json

/-! ## Values -/

mutual

/-- No number stands in the value. -/
def numberless : Json → Bool
  | .number _ => false
  | .array items => numberlessItems items
  | .object fields => numberlessFields fields
  | _ => true

/-- No number stands in the items. -/
def numberlessItems : List Json → Bool
  | [] => true
  | v :: vs => numberless v && numberlessItems vs

/-- No number stands in the fields. -/
def numberlessFields : List (Text × Json) → Bool
  | [] => true
  | (_, v) :: fields => numberless v && numberlessFields fields

end

mutual

/-- The value with the pairs in all its texts joined. -/
def joined : Json → Json
  | .text t => .text t.joinPairs
  | .array items => .array (joinedItems items)
  | .object fields => .object (joinedFields fields)
  | v => v

/-- The items with the pairs in all their texts joined. -/
def joinedItems : List Json → List Json
  | [] => []
  | v :: vs => joined v :: joinedItems vs

/-- The fields with the pairs in all their texts joined, those of their names too. -/
def joinedFields : List (Text × Json) → List (Text × Json)
  | [] => []
  | (name, v) :: fields => (name.joinPairs, joined v) :: joinedFields fields

end

/-! ## Reading a part of a text -/

/-- Reading `w` takes the reader from the state `s` to `s'`, whatever follows. -/
def Reads (s : State) (w : Text) (s' : State) : Prop :=
  ∀ rest, run s (tokens (w ++ rest)) = run s' (tokens rest)

theorem Reads.append {s s' s'' : State} {v w : Text} (hv : Reads s v s') (hw : Reads s' w s'') :
    Reads s (v ++ w) s'' := by
  intro rest
  rw [List.append_assoc, hv, hw]

theorem Reads.cons {s s' s'' : State} {c : CodePoint} {w : Text} (hc : Reads s [c] s')
    (hw : Reads s' w s'') : Reads s (c :: w) s'' := hc.append hw

/-- Spaces change nothing. -/
theorem reads_spaces {w : Text} (hw : ∀ c ∈ w, isSpace c = true) (s : State) : Reads s w s := by
  intro rest
  induction w with
  | nil => rfl
  | cons c w ih =>
    rw [List.cons_append, tokens, hw c List.mem_cons_self]
    exact ih fun x hx => hw x (List.mem_cons_of_mem _ hx)

/-- A text that is one token takes the reader where the token does. -/
theorem reads_of_tokens {s s' : State} {w : Text} {k : Token}
    (hw : ∀ rest, ∃ start, tokens (w ++ rest) = ⟨k, start⟩ :: tokens rest)
    (hs : ∀ start, step s ⟨k, start⟩ = .ok s') : Reads s w s' := by
  intro rest
  obtain ⟨start, ht⟩ := hw rest
  rw [ht, run, hs]

theorem tokens_cons_mark {c : CodePoint} {k : Token} (hc : mark? c = some k)
    (hspace : isSpace c = false) (rest : Text) :
    tokens (c :: rest) = ⟨k, c :: rest⟩ :: tokens rest := by
  rw [tokens, hspace, scan, hc]
  rfl

theorem reads_mark {s s' : State} {c : CodePoint} {k : Token} (hc : mark? c = some k)
    (hspace : isSpace c = false) (hs : ∀ start, step s ⟨k, start⟩ = .ok s') : Reads s [c] s' :=
  reads_of_tokens (fun rest => ⟨_, tokens_cons_mark hc hspace rest⟩) hs

theorem reads_writeText {s s' : State} {t : Text}
    (hs : ∀ start, step s ⟨.text t.joinPairs, start⟩ = .ok s') : Reads s (writeText t) s' :=
  reads_of_tokens (fun rest => ⟨_, tokens_writeText t rest⟩) hs

/-- A word is read as its token, whatever follows it. -/
theorem tokens_word {c : CodePoint} {w : Text} {k : Token} (hspace : isSpace c = false)
    (hmark : mark? c = none) (hquote : c ≠ .scalar '"')
    (hw : ∀ rest, scanWord? (c :: w ++ rest) = some (k, rest)) (rest : Text) :
    tokens (c :: w ++ rest) = ⟨k, c :: w ++ rest⟩ :: tokens rest := by
  have hscan : scan c (w ++ rest) = (k, rest) := by
    rw [scan, hmark, ← List.cons_append, hw rest]
    simp only [hquote, ↓reduceIte]
  rw [List.cons_append, tokens, hspace, hscan]
  rfl

theorem reads_word {s s' : State} {c : CodePoint} {w : Text} {k : Token}
    (hspace : isSpace c = false) (hmark : mark? c = none) (hquote : c ≠ .scalar '"')
    (hw : ∀ rest, scanWord? (c :: w ++ rest) = some (k, rest))
    (hs : ∀ start, step s ⟨k, start⟩ = .ok s') : Reads s (c :: w) s' :=
  reads_of_tokens (fun rest => ⟨_, tokens_word hspace hmark hquote hw rest⟩) hs

/-! ## Layouts -/

/-- The layout sets items apart with nothing but spaces. -/
def Layout.Blank : Layout → Prop
  | compact => True
  | block unit => ∀ c ∈ unit, isSpace c = true

theorem mem_repeated {c : CodePoint} {n : Nat} {t : Text} (hc : c ∈ Text.repeated n t) : c ∈ t := by
  simp only [Text.repeated, List.mem_flatten, List.mem_replicate] at hc
  obtain ⟨_, ⟨-, rfl⟩, hc⟩ := hc
  exact hc

theorem Layout.blank_compact : compact.Blank := trivial

theorem Layout.blank_spaces (n : Int) : (Layout.spaces n).Blank := by
  intro c hc
  rw [List.mem_singleton.1 (mem_repeated hc)]
  rfl

section Layout

variable {layout : Layout} (hl : layout.Blank)

include hl

theorem isSpace_lead (depth : Nat) : ∀ c ∈ layout.lead depth, isSpace c = true := by
  cases layout with
  | compact => intro c hc; cases hc
  | block unit =>
    intro c hc
    rcases List.mem_cons.1 hc with rfl | hc
    · rfl
    · exact hl c (mem_repeated hc)

/-- A separator is a comma and spaces. -/
theorem separator_eq (depth : Nat) :
    ∃ gap, layout.separator depth = .scalar ',' :: gap ∧ ∀ c ∈ gap, isSpace c = true := by
  cases layout with
  | compact => exact ⟨[.scalar ' '], rfl, fun c hc => List.mem_singleton.1 hc ▸ rfl⟩
  | block unit =>
    refine ⟨.scalar '\n' :: Text.repeated depth unit, rfl, fun c hc => ?_⟩
    rcases List.mem_cons.1 hc with rfl | hc
    · rfl
    · exact hl c (mem_repeated hc)

theorem reads_lead (depth : Nat) (s : State) : Reads s (layout.lead depth) s :=
  reads_spaces (isSpace_lead hl depth) s

theorem reads_separator (depth : Nat) {s s' : State}
    (hs : ∀ start, step s ⟨.comma, start⟩ = .ok s') : Reads s (layout.separator depth) s' := by
  obtain ⟨gap, hgap, hspaces⟩ := separator_eq hl depth
  rw [hgap]
  exact (reads_mark rfl rfl hs).cons (reads_spaces hspaces s')

/-- Between brackets there is nothing, or items that are read from the state after the opening
bracket to one before the closing bracket. -/
theorem reads_enclose {s s₁ s₂ s' : State} {opening closing : CodePoint} {items : List Text}
    (depth : Nat) (hopen : Reads s [opening] s₁)
    (hempty : items = [] → Reads s₁ [closing] s')
    (hitems : items ≠ [] → Reads s₁ (Text.join (layout.separator (depth + 1)) items) s₂)
    (hclose : items ≠ [] → Reads s₂ [closing] s') :
    Reads s (layout.enclose depth opening closing items) s' := by
  unfold Layout.enclose
  split
  · next h => exact hopen.cons (hempty (List.isEmpty_iff.1 h))
  · next h =>
    have hne : items ≠ [] := fun h0 => h (List.isEmpty_iff.2 h0)
    exact ((hopen.append (reads_lead hl (depth + 1) s₁)).append (hitems hne)).append
      (reads_lead hl depth s₂) |>.append (hclose hne)

end Layout

/-! ## Reading values -/

/-- In the state `s` a value may come, the next one in the innermost of `frames`. -/
def AwaitsValue (s : State) (frames : List Frame) : Prop :=
  ∀ x : Lexeme, x.token ≠ .closeArray → step s x = stepValue frames x

/-- In the state `s` the name of a field may come, after `fields` in the innermost object. -/
def AwaitsName (s : State) (fields : List (Text × Json)) (frames : List Frame) : Prop :=
  ∀ x : Lexeme, x.token ≠ .closeObject → step s x = stepName fields frames x

theorem awaitsValue_value (frames : List Frame) : AwaitsValue (.value frames) frames :=
  fun _ _ => rfl

theorem awaitsValue_firstItem (frames : List Frame) :
    AwaitsValue (.firstItem frames) (.array [] :: frames) := by
  rintro ⟨k, start⟩ hk
  cases k <;> first | rfl | exact absurd rfl hk

theorem awaitsName_firstName (frames : List Frame) : AwaitsName (.firstName frames) [] frames := by
  rintro ⟨k, start⟩ hk
  cases k <;> first | rfl | exact absurd rfl hk

theorem awaitsName_fieldName (fields : List (Text × Json)) (frames : List Frame) :
    AwaitsName (.fieldName fields frames) fields frames := fun _ _ => rfl

theorem writeItems_eq_nil_iff {layout : Layout} {depth : Nat} {vs : List Json} :
    writeItems layout depth vs = [] ↔ vs = [] := by
  cases vs <;> simp [writeItems]

theorem writeFields_eq_nil_iff {layout : Layout} {depth : Nat} {fields : List (Text × Json)} :
    writeFields layout depth fields = [] ↔ fields = [] := by
  cases fields with
  | nil => simp [writeFields]
  | cons f fields => simp [writeFields]

theorem join_cons {sep t : Text} {ts : List Text} (hts : ts ≠ []) :
    Text.join sep (t :: ts) = t ++ sep ++ Text.join sep ts := by
  cases ts with
  | nil => exact absurd rfl hts
  | cons u us => rfl

mutual

/-- Where a value may come, a written value is read as one. -/
theorem reads_writeAt {layout : Layout} (hl : layout.Blank) (depth : Nat) (v : Json)
    (hv : v.numberless = true) {s : State} {frames : List Frame} (hs : AwaitsValue s frames) :
    Reads s (writeAt layout depth v) (.complete v.joined frames) := by
  match v, hv with
  | .null, _ =>
    exact reads_word (w := [.scalar 'u', .scalar 'l', .scalar 'l']) rfl rfl (by decide)
      (fun _ => rfl) fun start => hs ⟨.null, start⟩ nofun
  | .bool true, _ =>
    exact reads_word (w := [.scalar 'r', .scalar 'u', .scalar 'e']) rfl rfl (by decide)
      (fun _ => rfl) fun start => hs ⟨.bool true, start⟩ nofun
  | .bool false, _ =>
    exact reads_word (w := [.scalar 'a', .scalar 'l', .scalar 's', .scalar 'e']) rfl rfl (by decide)
      (fun _ => rfl) fun start => hs ⟨.bool false, start⟩ nofun
  | .text t, _ => exact reads_writeText fun start => hs ⟨.text _, start⟩ nofun
  | .array vs, hv =>
    have hopen : Reads s [.scalar '['] (.firstItem frames) :=
      reads_mark (k := .openArray) rfl rfl fun start => hs ⟨.openArray, start⟩ nofun
    have hclose : Reads (.afterItem ((joinedItems vs).reverse ++ []) frames) [.scalar ']']
        (.complete (.array (joinedItems vs)) frames) := by
      rw [List.append_nil]
      refine reads_mark (k := .closeArray) rfl rfl fun start => ?_
      show Except.ok (State.complete (.array (joinedItems vs).reverse.reverse) frames) = _
      rw [List.reverse_reverse]
    refine reads_enclose hl depth hopen (fun hempty => ?_) (fun hne => ?_) fun _ => hclose
    · rw [writeItems_eq_nil_iff.1 hempty]
      exact reads_mark (k := .closeArray) rfl rfl fun start => rfl
    · exact reads_writeItems hl (depth + 1) vs hv (fun h => hne (writeItems_eq_nil_iff.2 h))
        (awaitsValue_firstItem frames)
  | .object fields, hv =>
    have hopen : Reads s [.scalar '\x7b'] (.firstName frames) :=
      reads_mark (k := .openObject) rfl rfl fun start => hs ⟨.openObject, start⟩ nofun
    have hclose : Reads (.afterField ((joinedFields fields).reverse ++ []) frames)
        [.scalar '\x7d'] (.complete (.object (joinedFields fields)) frames) := by
      rw [List.append_nil]
      refine reads_mark (k := .closeObject) rfl rfl fun start => ?_
      show Except.ok (State.complete (.object (joinedFields fields).reverse.reverse) frames) = _
      rw [List.reverse_reverse]
    refine reads_enclose hl depth hopen (fun hempty => ?_) (fun hne => ?_) fun _ => hclose
    · rw [writeFields_eq_nil_iff.1 hempty]
      exact reads_mark (k := .closeObject) rfl rfl fun start => rfl
    · exact reads_writeFields hl (depth + 1) fields hv
        (fun h => hne (writeFields_eq_nil_iff.2 h)) (awaitsName_firstName frames)

/-- Written items are read as items. -/
theorem reads_writeItems {layout : Layout} (hl : layout.Blank) (depth : Nat) (vs : List Json)
    (hv : numberlessItems vs = true) (hne : vs ≠ []) {s : State} {items : List Json}
    {frames : List Frame} (hs : AwaitsValue s (.array items :: frames)) :
    Reads s (Text.join (layout.separator depth) (writeItems layout depth vs))
      (.afterItem ((joinedItems vs).reverse ++ items) frames) := by
  match vs, hv with
  | [], _ => exact absurd rfl hne
  | v :: vs, hv =>
    rw [numberlessItems, Bool.and_eq_true] at hv
    have hfirst : Reads s (writeAt layout depth v) (.afterItem (v.joined :: items) frames) :=
      reads_writeAt hl depth v hv.1 hs
    by_cases hvs : vs = []
    · subst hvs
      exact hfirst
    · have hsep : Reads (.afterItem (v.joined :: items) frames) (layout.separator depth)
          (.value (.array (v.joined :: items) :: frames)) :=
        reads_separator hl depth fun start => rfl
      have hrest := reads_writeItems hl depth vs hv.2 hvs
        (awaitsValue_value (.array (v.joined :: items) :: frames))
      have hlist : (joinedItems (v :: vs)).reverse ++ items =
          (joinedItems vs).reverse ++ v.joined :: items := by
        rw [joinedItems, List.reverse_cons, List.append_assoc, List.singleton_append]
      rw [writeItems, join_cons (fun h => hvs (writeItems_eq_nil_iff.1 h)), hlist]
      exact (hfirst.append hsep).append hrest

/-- Written fields are read as fields. -/
theorem reads_writeFields {layout : Layout} (hl : layout.Blank) (depth : Nat)
    (fields : List (Text × Json)) (hv : numberlessFields fields = true) (hne : fields ≠ [])
    {s : State} {done : List (Text × Json)} {frames : List Frame} (hs : AwaitsName s done frames) :
    Reads s (Text.join (layout.separator depth) (writeFields layout depth fields))
      (.afterField ((joinedFields fields).reverse ++ done) frames) := by
  match fields, hv with
  | [], _ => exact absurd rfl hne
  | (name, v) :: fields, hv =>
    rw [numberlessFields, Bool.and_eq_true] at hv
    have hname : Reads s (writeText name) (.colon done name.joinPairs frames) :=
      reads_writeText fun start => hs ⟨.text _, start⟩ nofun
    have hcolon : Reads (.colon done name.joinPairs frames) (": " : String)
        (.value (.object done name.joinPairs :: frames)) := by
      refine Reads.cons (reads_mark (k := .colon) rfl rfl fun start => rfl) (reads_spaces ?_ _)
      intro c hc
      rw [List.mem_singleton.1 hc]
      rfl
    have hvalue : Reads (.value (.object done name.joinPairs :: frames)) (writeAt layout depth v)
        (.afterField ((name.joinPairs, v.joined) :: done) frames) :=
      reads_writeAt hl depth v hv.1 (awaitsValue_value _)
    have hfirst := (hname.append hcolon).append hvalue
    by_cases hfields : fields = []
    · subst hfields
      exact hfirst
    · have hsep : Reads (.afterField ((name.joinPairs, v.joined) :: done) frames)
          (layout.separator depth)
          (.fieldName ((name.joinPairs, v.joined) :: done) frames) :=
        reads_separator hl depth fun start => rfl
      have hrest := reads_writeFields hl depth fields hv.2 hfields
        (awaitsName_fieldName ((name.joinPairs, v.joined) :: done) frames)
      have hlist : (joinedFields ((name, v) :: fields)).reverse ++ done =
          (joinedFields fields).reverse ++ (name.joinPairs, v.joined) :: done := by
        rw [joinedFields, List.reverse_cons, List.append_assoc, List.singleton_append]
      rw [writeFields, join_cons (fun h => hfields (writeFields_eq_nil_iff.1 h)), hlist]
      exact (hfirst.append hsep).append hrest

end

/-! ## Documents -/

theorem tokens_nil : tokens [] = [] := by rw [tokens]

/-- A byte order mark starts no value. -/
theorem ofTokens_byteOrderMark (t : Text) (v : Json) :
    ofTokens (tokens (.scalar '\uFEFF' :: t)) ≠ .ok v := by
  have hscan : scan (.scalar '\uFEFF') t = (.junk, []) := rfl
  have hspace : isSpace (.scalar '\uFEFF') = false := rfl
  rw [tokens, hspace, hscan, tokens_nil]
  intro h
  cases h

theorem read_of_ofTokens {t : Text} {v : Json} (h : ofTokens (tokens t) = .ok v) :
    read t = .ok v := by
  unfold read
  split
  · exact absurd h (ofTokens_byteOrderMark _ v)
  · exact h

/-- A document without numbers reads back as itself, with the pairs in its texts joined. Spaces may
follow it. -/
theorem read_write_append {layout : Layout} (hl : layout.Blank) {v : Json}
    (hv : v.numberless = true) {w : Text} (hw : ∀ c ∈ w, isSpace c = true) :
    read (write layout v ++ w) = .ok v.joined := by
  have hreads := (reads_writeAt hl 0 v hv (awaitsValue_value [])).append (reads_spaces hw _) []
  rw [List.append_nil] at hreads
  apply read_of_ofTokens
  rw [ofTokens, write, hreads, tokens_nil]
  rfl

theorem read_write {layout : Layout} (hl : layout.Blank) {v : Json} (hv : v.numberless = true) :
    read (write layout v) = .ok v.joined := by
  rw [← List.append_nil (write layout v)]
  exact read_write_append hl hv fun _ h => absurd h List.not_mem_nil

/-! ## Writing joined values -/

mutual

theorem writeAt_joined (layout : Layout) (depth : Nat) (v : Json) :
    writeAt layout depth v.joined = writeAt layout depth v := by
  match v with
  | .null | .bool _ | .number _ => rfl
  | .text t => exact writeText_joinPairs t
  | .array vs => rw [joined, writeAt, writeAt, writeItems_joinedItems layout (depth + 1) vs]
  | .object fields =>
    rw [joined, writeAt, writeAt, writeFields_joinedFields layout (depth + 1) fields]

theorem writeItems_joinedItems (layout : Layout) (depth : Nat) (vs : List Json) :
    writeItems layout depth (joinedItems vs) = writeItems layout depth vs := by
  match vs with
  | [] => rfl
  | v :: vs =>
    rw [joinedItems, writeItems, writeItems, writeAt_joined layout depth v,
      writeItems_joinedItems layout depth vs]

theorem writeFields_joinedFields (layout : Layout) (depth : Nat) (fields : List (Text × Json)) :
    writeFields layout depth (joinedFields fields) = writeFields layout depth fields := by
  match fields with
  | [] => rfl
  | (name, v) :: fields =>
    rw [joinedFields, writeFields, writeFields, writeText_joinPairs, writeAt_joined layout depth v,
      writeFields_joinedFields layout depth fields]

end

/-- Joining the pairs of a value changes nothing of what is written for it. -/
theorem write_joined (layout : Layout) (v : Json) : write layout v.joined = write layout v :=
  writeAt_joined layout 0 v

end ReportTree.Json
