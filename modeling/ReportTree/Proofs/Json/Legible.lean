import Mathlib.Data.List.TakeWhile
import ReportTree.Json.Writer
import ReportTree.Proofs.Ansi.Stripping
import ReportTree.Text.Utf8

/-!
# Written JSON is legible

What is written for a value holds nothing but line feeds and printable ASCII, whatever its texts
hold. A text like that goes through a console and through a file as it is.

* `Json.legible_write`: the text of a value is legible, if its layout is.
* `Text.Legible.strip_eq`: no escape sequence is taken out of a legible text.
* `Text.Legible.decode_encodeLoose`: its bytes are read as the text.
-/

namespace ReportTree

/-- A line feed or a printable character of ASCII. -/
def CodePoint.isLegible (c : CodePoint) : Bool :=
  c == .scalar '\n' || (0x20 ≤ c.toNat && c.toNat ≤ 0x7E)

/-- A text of line feeds and printable ASCII. -/
def Text.Legible (t : Text) : Prop := ∀ c ∈ t, c.isLegible = true

instance (t : Text) : Decidable t.Legible := inferInstanceAs (Decidable (∀ c ∈ t, _))

theorem CodePoint.isLegible_of_le {c : CodePoint} (h : 0x20 ≤ c.toNat) (h' : c.toNat ≤ 0x7E) :
    c.isLegible = true := by
  simp [isLegible, h, h']

theorem CodePoint.toNat_lt_of_isLegible {c : CodePoint} (h : c.isLegible = true) :
    c.toNat < 0x80 := by
  simp only [isLegible, Bool.or_eq_true, beq_iff_eq, Bool.and_eq_true, decide_eq_true_eq] at h
  rcases h with rfl | ⟨-, h⟩
  · decide
  · exact Nat.lt_of_le_of_lt h (by decide)

namespace Text.Legible

variable {t u : Text}

theorem nil : Legible [] := fun _ h => absurd h List.not_mem_nil

theorem append (ht : t.Legible) (hu : u.Legible) : (t ++ u).Legible :=
  List.forall_mem_append.2 ⟨ht, hu⟩

theorem cons {c : CodePoint} (hc : c.isLegible = true) (ht : t.Legible) : Legible (c :: t) :=
  List.forall_mem_cons.2 ⟨hc, ht⟩

theorem ite {p : Prop} [Decidable p] (ht : p → t.Legible) (hu : ¬p → u.Legible) :
    (if p then t else u).Legible := by
  split
  · next h => exact ht h
  · next h => exact hu h

theorem repeated (ht : t.Legible) (n : Nat) : (Text.repeated n t).Legible := by
  intro c hc
  obtain ⟨u, hu, hc⟩ := List.mem_flatten.1 hc
  exact ht c (List.eq_of_mem_replicate hu ▸ hc)

theorem join {ts : List Text} (hu : u.Legible) (hts : ∀ t ∈ ts, t.Legible) :
    (Text.join u ts).Legible := by
  fun_induction Text.join u ts with
  | case1 => exact nil
  | case2 t => exact hts t List.mem_cons_self
  | case3 t ts _ ih =>
    rw [List.forall_mem_cons] at hts
    exact (hts.1.append hu).append (ih hts.2)

/-! ## Channels -/

theorem not_mem (ht : t.Legible) {c : CodePoint} (hc : c.isLegible = false) : c ∉ t := by
  intro h
  rw [ht c h] at hc
  cases hc

/-- A console takes nothing out of the text. -/
theorem strip_eq (ht : t.Legible) : Ansi.strip t = t := by
  have hstrip := Ansi.Pattern.strip_append_of_not_mem (p := .console) (u := [])
    (ht.not_mem (c := Ansi.esc) (by decide))
  rwa [Ansi.Pattern.strip_nil, List.append_nil, Ansi.Pattern.strip_console] at hstrip

/-- A console can encode the text. -/
theorem unencodable?_eq_none (ht : t.Legible) : Utf8.unencodable? t = none := by
  have hhalf : ∀ c ∈ t, (!Utf8.isHalf c) = true := by
    intro c hc
    cases c with
    | scalar c => rfl
    | high i | low i =>
      have hlt := CodePoint.toNat_lt_of_isLegible (ht _ hc)
      simp only [CodePoint.toNat] at hlt
      omega
  have hrest : t.dropWhile (!Utf8.isHalf ·) = [] := List.dropWhile_eq_nil_iff.2 hhalf
  rw [Utf8.unencodable?, hrest]
  rfl

theorem decodeFrom_encodeLoose (ht : t.Legible) (pos : Nat) :
    Utf8.decodeFrom pos none (Utf8.encodeLoose t) = .ok t := by
  induction t generalizing pos with
  | nil => rfl
  | cons c t ih =>
    rw [Legible, List.forall_mem_cons] at ht
    have hlt := CodePoint.toNat_lt_of_isLegible ht.1
    have hbyte : c.toNat.toUInt8.toNat = c.toNat :=
      Nat.mod_eq_of_lt (Nat.lt_trans hlt (by decide))
    have hencode : Utf8.encodeLoose (c :: t) = c.toNat.toUInt8 :: Utf8.encodeLoose t := by
      rw [Utf8.encodeLoose, List.flatMap_cons, Utf8.encodeNumber, if_pos hlt]
      rfl
    have hsmall : c.toNat.toUInt8 < 0x80 := by
      rw [UInt8.lt_iff_toNat_lt, hbyte]
      exact hlt
    rw [hencode, Utf8.decodeFrom, if_pos hsmall, ih ht.2, hbyte, CodePoint.ofNat_toNat]
    rfl

/-- The bytes of the text are decoded as the text. -/
theorem decode_encodeLoose (ht : t.Legible) : Utf8.decode (Utf8.encodeLoose t) = .ok t :=
  ht.decodeFrom_encodeLoose 0

end Text.Legible

open Text (Legible)

theorem legible_ofNat (n : Nat) : Legible (Numeral.ofNat n) := by
  intro c hc
  obtain ⟨d, hd, rfl⟩ := List.mem_map.1 hc
  have hdigit := Ansi.isBetween_of_isDigit
    (Nat.isDigit_of_mem_toDigits (by decide) (by decide) hd) (Nat.le_refl 0x39)
  rw [Ansi.isBetween, Bool.and_eq_true, decide_eq_true_eq, decide_eq_true_eq] at hdigit
  exact CodePoint.isLegible_of_le (Nat.le_trans (by decide) hdigit.1)
    (Nat.le_trans hdigit.2 (by decide))

theorem legible_ofInt (n : Int) : Legible (Numeral.ofInt n) := by
  cases n with
  | ofNat n => exact legible_ofNat n
  | negSucc n => exact .cons (by decide) (legible_ofNat _)

theorem legible_hexDigits (width n : Nat) : Legible (hexDigits width n) := by
  induction width generalizing n with
  | zero => exact .nil
  | succ width ih =>
    have hdigit : ∀ k < 16, (hexDigit k).isLegible = true := by decide
    exact (ih _).append (.cons (hdigit _ (Nat.mod_lt n (by decide))) .nil)

namespace Json

theorem legible_escapeUnit (n : Nat) : Legible (escapeUnit n) :=
  Legible.append (by decide) (legible_hexDigits 4 n)

/-- What is not legible is escaped. -/
theorem legible_escape (c : CodePoint) : Legible (escape c) := by
  unfold escape
  iterate 7 refine .ite (fun _ => by decide) fun _ => ?_
  refine .ite (fun h => .cons (CodePoint.isLegible_of_le h.1 h.2) .nil) fun _ => ?_
  exact .ite (fun _ => legible_escapeUnit _) fun _ =>
    (legible_escapeUnit _).append (legible_escapeUnit _)

theorem legible_writeText (t : Text) : Legible (writeText t) := by
  have hbody : Legible (t.flatMap escape) := by
    intro x hx
    obtain ⟨c, -, hc⟩ := List.mem_flatMap.1 hx
    exact legible_escape c x hc
  exact .append (.cons (by decide) hbody) (by decide)

theorem legible_writeNumber (n : Number) : Legible (writeNumber n) := by
  cases n with
  | integer n => exact legible_ofInt n
  | decimal negative digits exponent =>
    have hsign : Legible (if negative then "-" else "" : String) := by cases negative <;> decide
    exact ((hsign.append (legible_ofNat digits)).append (by decide)).append (legible_ofInt exponent)
  | infinite negative => cases negative <;> decide
  | undefined => decide

/-- The layout indents with nothing but legible text. -/
def Layout.Legible : Layout → Prop
  | compact => True
  | block unit => Text.Legible unit

theorem Layout.legible_compact : Layout.compact.Legible := trivial

theorem Layout.legible_of_ofIndent {indent : Option Int} {layout : Layout}
    (h : Layout.ofIndent indent = .ok layout) : layout.Legible := by
  rcases Layout.eq_of_ofIndent_eq_ok h with rfl | ⟨n, rfl⟩
  · exact legible_compact
  · exact .repeated (by decide) _

section

variable {layout : Layout} (hl : layout.Legible)

include hl

theorem legible_lead (depth : Nat) : Legible (layout.lead depth) := by
  cases layout with
  | compact => exact .nil
  | block unit => exact .cons (by decide) (.repeated hl depth)

theorem legible_separator (depth : Nat) : Legible (layout.separator depth) := by
  cases layout with
  | compact => exact fun c hc => (by decide : Legible ", ") c hc
  | block unit => exact .append (by decide) (.repeated hl depth)

theorem legible_enclose (depth : Nat) {opening closing : CodePoint} {items : List Text}
    (hbrackets : Legible [opening, closing]) (hitems : ∀ t ∈ items, Legible t) :
    Legible (layout.enclose depth opening closing items) := by
  have hopening := hbrackets opening List.mem_cons_self
  have hclosing := hbrackets closing (.tail _ (.head _))
  refine .ite (fun _ => hbrackets) fun _ => ?_
  have hinner := (Legible.cons hopening (legible_lead hl (depth + 1))).append
    (.join (legible_separator hl (depth + 1)) hitems)
  exact (hinner.append (legible_lead hl depth)).append (.cons hclosing .nil)

end

mutual

theorem legible_writeAt {layout : Layout} (hl : layout.Legible) (depth : Nat) (v : Json) :
    Legible (writeAt layout depth v) := by
  match v with
  | .null => exact (by decide : Legible "null")
  | .bool b => exact .ite (fun _ => by decide) fun _ => by decide
  | .number n => exact legible_writeNumber n
  | .text t => exact legible_writeText t
  | .array vs =>
    exact legible_enclose hl depth (by decide) (legible_writeItems hl (depth + 1) vs)
  | .object fields =>
    exact legible_enclose hl depth (by decide) (legible_writeFields hl (depth + 1) fields)

theorem legible_writeItems {layout : Layout} (hl : layout.Legible) (depth : Nat)
    (vs : List Json) : ∀ t ∈ writeItems layout depth vs, Legible t := by
  match vs with
  | [] => exact fun _ h => absurd h List.not_mem_nil
  | v :: vs =>
    exact List.forall_mem_cons.2 ⟨legible_writeAt hl depth v, legible_writeItems hl depth vs⟩

theorem legible_writeFields {layout : Layout} (hl : layout.Legible) (depth : Nat)
    (fields : List (Text × Json)) : ∀ t ∈ writeFields layout depth fields, Legible t := by
  match fields with
  | [] => exact fun _ h => absurd h List.not_mem_nil
  | (name, v) :: fields =>
    have hfield := ((legible_writeText name).append (u := ": ") (by decide)).append
      (legible_writeAt hl depth v)
    exact List.forall_mem_cons.2 ⟨hfield, legible_writeFields hl depth fields⟩

end

/-- The text of a value is legible, whatever the texts in the value hold. -/
theorem legible_write {layout : Layout} (hl : layout.Legible) (v : Json) :
    Legible (write layout v) :=
  legible_writeAt hl 0 v

/-- An escape sequence in a text is written as an escape. -/
example : write .compact (.text (Ansi.switch 31)) = "\"\\u001b[31m\"" := by decide

end Json

end ReportTree
