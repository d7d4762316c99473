/-
# Canonical text determines its value

Canonical text puts the fields of an object into the order of their keys, so a value can be known from it only up to
that order (`Json.ordered`), and up to that order it is known: two values have one text just if they are the same
when ordered (`Json.canonical_eq_iff`).

Values stand in each other's text, hence the proof is about a text that goes on behind the value, with a comma or
with the end of a container (`Json.Follows`), and nothing else is assumed of what stands there. A list or an object
is read element by element (`Json.enclosed_inj`), whatever the elements are.

| value | how it is told from others | where it ends |
| --- | --- | --- |
| text | opening quote | closing quote |
| list, object | opening bracket | no comma behind an element |
| scalar | neither quote nor bracket | the first comma or bracket |
-/

import Tariff.Proofs.Json.Ordered
import Tariff.Proofs.Json.Scalars
import Tariff.Proofs.Json.Strings

namespace Tariff
namespace Json

/-! ### Texts of containers -/

/-- A field with its key. -/
def fieldText (p : String × Json) : String := stringText p.1 ++ ": " ++ p.2.canonical

theorem canonicalItems_eq_map (items : List Json) : canonicalItems items = items.map canonical := by
  induction items with
  | nil => rw [canonicalItems, List.map_nil]
  | cons x rest ih => rw [canonicalItems, ih, List.map_cons]

theorem canonicalFields_eq_map (fields : List (String × Json)) :
    canonicalFields fields = fields.map fun p => (p.1, fieldText p) := by
  induction fields with
  | nil => rw [canonicalFields, List.map_nil]
  | cons p rest ih => rw [canonicalFields, ih, List.map_cons, fieldText]

/-- A list is its elements between brackets, with commas. -/
theorem canonical_list (items : List Json) :
    (list items).canonical = "[" ++ ", ".intercalate (items.map canonical) ++ "]" := by
  rw [canonical, canonicalItems_eq_map]

/-- An object is its fields between braces, with commas, in the order of their keys. -/
theorem canonical_object (fields : List (String × Json)) :
    (object fields).canonical = "\x7b" ++ ", ".intercalate ((sortFields fields).map fieldText) ++ "\x7d" := by
  rw [canonical, canonicalFields_eq_map, sortFields_map, List.map_map]
  rfl

/-! ### Reading what goes on -/

/-- What may stand behind a value: nothing, a comma or the end of a container. -/
def Follows (rest : List Char) : Prop := ∀ c ∈ rest.head?, c ∈ [',', ']', '\x7d']

section

variable {α β : Type} {text : α → String} {value : α → β} {xs ys : List α} {r r' : List Char} {close : Char}

/-- The value of `x` is known from any text that begins with the text of `x`, to the end of which nothing else may
belong. -/
def Readable (text : α → String) (value : α → β) (x : α) : Prop :=
  ∀ ⦃y r r'⦄, Follows r → Follows r' → (text x).toList ++ r = (text y).toList ++ r' → value x = value y ∧ r = r'

/-- The elements behind the first, each with a comma and a blank in front, and the end of the container. -/
def closing (close : Char) (texts : List String) : List Char :=
  texts.flatMap (fun t => ',' :: ' ' :: t.toList) ++ [close]

/-- All elements and the end of the container. -/
def enclosed (close : Char) (texts : List String) : List Char := (", ".intercalate texts).toList ++ [close]

theorem enclosed_cons (close : Char) (t : String) (texts : List String) :
    enclosed close (t :: texts) = t.toList ++ closing close texts := by
  induction texts generalizing t with
  | nil => simp [enclosed, closing]
  | cons u texts ih =>
    have := ih u
    simp only [enclosed, String.toList_intercalate, List.map_cons, List.intercalate_cons_cons, closing,
      List.flatMap_cons, List.append_assoc] at this ⊢
    rw [this]
    rfl

/-- Behind an element stands a comma or the end of its container. -/
theorem follows_closing (hclose : close ∈ [']', '\x7d']) (texts : List String) (r : List Char) :
    Follows (closing close texts ++ r) := by
  have hend : close ∈ [',', ']', '\x7d'] := List.mem_cons_of_mem _ hclose
  cases texts with
  | nil => simpa [Follows, closing] using hend
  | cons t texts => simp [Follows, closing]

/-- **The elements behind the first are known from the text**, and so is where they end: each comma promises one
more element. -/
theorem closing_inj (hclose : close ∈ [']', '\x7d']) (hread : ∀ x ∈ xs, Readable text value x)
    (h : closing close (xs.map text) ++ r = closing close (ys.map text) ++ r') :
    xs.map value = ys.map value ∧ r = r' := by
  have hcomma : close ≠ ',' := by
    rintro rfl
    simp at hclose
  induction xs generalizing ys with
  | nil =>
    cases ys with
    | nil => exact ⟨rfl, (List.cons.inj h).2⟩
    | cons y ys => exact absurd (List.cons.inj h).1 hcomma
  | cons x xs ih =>
    cases ys with
    | nil => exact absurd (List.cons.inj h).1.symm hcomma
    | cons y ys =>
      have hrest : (text x).toList ++ (closing close (xs.map text) ++ r) =
          (text y).toList ++ (closing close (ys.map text) ++ r') := by
        simpa [closing] using h
      obtain ⟨hvalue, htail⟩ := hread x List.mem_cons_self (follows_closing hclose _ r)
        (follows_closing hclose _ r') hrest
      obtain ⟨hvalues, hr⟩ := ih (fun z hz => hread z (List.mem_cons_of_mem x hz)) htail
      exact ⟨by rw [List.map_cons, List.map_cons, hvalue, hvalues], hr⟩

/-- **A container is read element by element.** Behind each element the text goes on with a comma or with the
end, so two containers with one text have as many elements. -/
theorem enclosed_inj (hclose : close ∈ [']', '\x7d']) (hstart : ∀ y r, ¬ Follows ((text y).toList ++ r))
    (hread : ∀ x ∈ xs, Readable text value x)
    (h : enclosed close (xs.map text) ++ r = enclosed close (ys.map text) ++ r') :
    xs.map value = ys.map value ∧ r = r' := by
  have hend (rest : List Char) : Follows (enclosed close [] ++ rest) := follows_closing hclose [] rest
  cases xs with
  | nil =>
    cases ys with
    | nil => exact ⟨rfl, List.append_cancel_left h⟩
    | cons y ys =>
      rw [List.map_nil, List.map_cons, enclosed_cons, List.append_assoc] at h
      exact absurd (h ▸ hend r) (hstart y _)
  | cons x xs =>
    cases ys with
    | nil =>
      rw [List.map_nil, List.map_cons, enclosed_cons, List.append_assoc] at h
      exact absurd (h ▸ hend r') (hstart x _)
    | cons y ys =>
      simp only [List.map_cons, enclosed_cons, List.append_assoc] at h
      obtain ⟨hvalue, htail⟩ := hread x List.mem_cons_self (follows_closing hclose _ r)
        (follows_closing hclose _ r') h
      obtain ⟨hvalues, hr⟩ := closing_inj hclose (fun z hz => hread z (List.mem_cons_of_mem x hz)) htail
      exact ⟨by rw [List.map_cons, List.map_cons, hvalue, hvalues], hr⟩

end

/-! ### Values -/

/-- The text of a list or an object begins with its bracket, and is read from there. -/
theorem toList_canonical_list (items : List Json) :
    (list items).canonical.toList = '[' :: enclosed ']' (items.map canonical) := by
  simp [canonical_list, enclosed]

/-- The text of an object is an opening brace and then its fields up to the closing one. -/
theorem toList_canonical_object (fields : List (String × Json)) :
    (object fields).canonical.toList = '\x7b' :: enclosed '\x7d' ((sortFields fields).map fieldText) := by
  simp [canonical_object, enclosed]

/-- The character that the text of a value begins with. -/
inductive Leads : Json → Char → Prop where
  | scalar {v : Json} {c : Char} (h : v.isScalar) (hc : isScalarChar c) : Leads v c
  | text (s : String) : Leads (.text s) '"'
  | list (items : List Json) : Leads (.list items) '['
  | object (fields : List (String × Json)) : Leads (.object fields) '\x7b'

/-- The text of a scalar begins with a character of scalars. -/
theorem Leads.isScalarChar {v : Json} {c : Char} (hlead : Leads v c) (h : v.isScalar) : isScalarChar c := by
  cases hlead with
  | scalar _ hc => exact hc
  | text s => simp [isScalar] at h
  | list items => simp [isScalar] at h
  | object fields => simp [isScalar] at h

/-- What begins with a character of scalars is a scalar. -/
theorem Leads.isScalar {v : Json} {c : Char} (hlead : Leads v c) (hc : Json.isScalarChar c) : v.isScalar := by
  cases hlead with
  | scalar h _ => exact h
  | text s => exact absurd hc (by decide)
  | list items => exact absurd hc (by decide)
  | object fields => exact absurd hc (by decide)

/-- The text of a scalar is not empty and begins with a character of scalars. -/
theorem leads_of_isScalar {v : Json} (h : v.isScalar) : ∃ c rest, v.canonical.toList = c :: rest ∧ Leads v c := by
  cases hv : v.canonical.toList with
  | nil =>
    have hread := scalar?_canonical h
    rw [hv] at hread
    exact absurd hread (by simp [scalar?, Numeral.signed, Numeral.decimal?])
  | cons c rest => exact ⟨c, rest, rfl, .scalar h (isScalarChar_of_mem_canonical h c (by simp [hv]))⟩

/-- The text of a value begins with a character that tells its kind. -/
theorem exists_leads (v : Json) : ∃ c rest, v.canonical.toList = c :: rest ∧ Leads v c := by
  cases v with
  | text s => exact ⟨'"', _, by rw [canonical, toList_stringText], .text s⟩
  | list items => exact ⟨'[', _, toList_canonical_list items, .list items⟩
  | object fields => exact ⟨'\x7b', _, toList_canonical_object fields, .object fields⟩
  | null => exact leads_of_isScalar rfl
  | bool b => exact leads_of_isScalar rfl
  | int z => exact leads_of_isScalar rfl
  | real x => exact leads_of_isScalar rfl

/-- A text that begins with two values has the first character of both. -/
theorem exists_leads_both {v w : Json} {r r' : List Char} (h : v.canonical.toList ++ r = w.canonical.toList ++ r') :
    ∃ c, Leads v c ∧ Leads w c := by
  obtain ⟨c, rest, hv, hlead⟩ := exists_leads v
  obtain ⟨c', rest', hw, hlead'⟩ := exists_leads w
  rw [hv, hw] at h
  obtain rfl := (List.cons.inj h).1
  exact ⟨c, hlead, hlead'⟩

/-- What may stand behind a value is no part of a scalar. -/
theorem isScalarChar_of_mem_follows {c : Char} (h : c ∈ [',', ']', '\x7d']) : isScalarChar c = false := by
  have hall : [',', ']', '\x7d'].all (fun c => !isScalarChar c) := by decide
  simpa using List.all_eq_true.1 hall c h

/-- No value begins with what may stand behind one, so a container that goes on is told from one that ends. -/
theorem not_follows_canonical (v : Json) (r : List Char) : ¬ Follows (v.canonical.toList ++ r) := by
  obtain ⟨c, rest, hv, hlead⟩ := exists_leads v
  rw [hv]
  intro h
  have hend : c ∈ [',', ']', '\x7d'] := h c rfl
  cases hlead with
  | scalar hscalar hc => exact absurd hc (by simp [isScalarChar_of_mem_follows hend])
  | text s => exact absurd hend (by decide)
  | list items => exact absurd hend (by decide)
  | object fields => exact absurd hend (by decide)

/-- A scalar goes on to the first character that is none of its kind. -/
theorem takeWhile_canonical {v : Json} (h : v.isScalar) {r : List Char} (hr : Follows r) :
    (v.canonical.toList ++ r).takeWhile isScalarChar = v.canonical.toList :=
  takeWhile_run (isScalarChar_of_mem_canonical h) fun c hc => isScalarChar_of_mem_follows (hr c hc)

/-- A scalar is read up to the first comma or bracket. -/
theorem readable_scalar {v : Json} (h : v.isScalar) : Readable canonical ordered v := by
  intro w r r' hr hr' heq
  obtain ⟨c, hv, hleads⟩ := exists_leads_both heq
  have hw : w.isScalar := hleads.isScalar (hv.isScalarChar h)
  have htext : v.canonical.toList = w.canonical.toList := by
    rw [← takeWhile_canonical h hr, heq, takeWhile_canonical hw hr']
  obtain rfl : v = w := by
    have hread := scalar?_canonical h
    rw [htext, scalar?_canonical hw] at hread
    exact (Option.some.inj hread).symm
  exact ⟨rfl, List.append_cancel_left heq⟩

/-- A text is read up to its closing quote. -/
theorem readable_text (s : String) : Readable canonical ordered (.text s) := by
  intro w r r' hr hr' heq
  obtain ⟨c, hv, hw⟩ := exists_leads_both heq
  cases hv with
  | scalar h _ => exact absurd h (by simp [isScalar])
  | text s =>
    cases hw with
    | scalar _ hc => exact absurd hc (by decide)
    | text t =>
      rw [canonical, canonical] at heq
      obtain ⟨rfl, hr⟩ := stringText_append_inj heq
      exact ⟨rfl, hr⟩

/-- A list is read element by element if each of them can be read. -/
theorem readable_list {items : List Json} (ih : ∀ x ∈ items, Readable canonical ordered x) :
    Readable canonical ordered (.list items) := by
  intro w r r' hr hr' heq
  obtain ⟨c, hv, hw⟩ := exists_leads_both heq
  cases hv with
  | scalar h _ => exact absurd h (by simp [isScalar])
  | list items =>
    cases hw with
    | scalar _ hc => exact absurd hc (by decide)
    | list items' =>
      rw [toList_canonical_list, toList_canonical_list] at heq
      obtain ⟨hitems, hr⟩ := enclosed_inj (by decide) not_follows_canonical ih (List.cons.inj heq).2
      exact ⟨by rw [ordered_list, ordered_list, hitems], hr⟩

/-- A field is its key, a colon, a blank and its value. -/
theorem toList_fieldText (p : String × Json) :
    (fieldText p).toList = (stringText p.1).toList ++ ':' :: ' ' :: p.2.canonical.toList := by
  simp [fieldText]

/-- A field is read as its key and its value. -/
theorem readable_field {p : String × Json} (ih : Readable canonical ordered p.2) :
    Readable fieldText (fun q => (q.1, q.2.ordered)) p := by
  intro q r r' hr hr' heq
  rw [toList_fieldText, toList_fieldText, List.append_assoc, List.append_assoc] at heq
  obtain ⟨hkey, hrest⟩ := stringText_append_inj heq
  obtain ⟨hvalue, htail⟩ := ih hr hr' (List.cons.inj (List.cons.inj hrest).2).2
  exact ⟨Prod.ext hkey hvalue, htail⟩

/-- No field begins with what may stand behind one. -/
theorem not_follows_fieldText (p : String × Json) (r : List Char) : ¬ Follows ((fieldText p).toList ++ r) := by
  rw [toList_fieldText, toList_stringText]
  intro h
  exact absurd (h '"' rfl) (by decide)

/-- An object is read field by field if each value can be read, and in the order of the keys. -/
theorem readable_object {fields : List (String × Json)} (ih : ∀ p ∈ fields, Readable canonical ordered p.2) :
    Readable canonical ordered (.object fields) := by
  intro w r r' hr hr' heq
  obtain ⟨c, hv, hw⟩ := exists_leads_both heq
  cases hv with
  | scalar h _ => exact absurd h (by simp [isScalar])
  | object fields =>
    cases hw with
    | scalar _ hc => exact absurd hc (by decide)
    | object fields' =>
      rw [toList_canonical_object, toList_canonical_object] at heq
      have hread : ∀ p ∈ sortFields fields, Readable fieldText (fun q => (q.1, q.2.ordered)) p :=
        fun p hp => readable_field (ih p ((perm_sortFields fields).subset hp))
      obtain ⟨hfields, hr⟩ := enclosed_inj (by decide) not_follows_fieldText hread (List.cons.inj heq).2
      exact ⟨by rw [ordered_object, ordered_object, hfields], hr⟩

/-- **What a text begins with is one value up to the order of fields.** By induction on the value: its first
character tells the kind, and the parts are read by the hypotheses. -/
theorem readable (v : Json) : Readable canonical ordered v := by
  induction v using induction with
  | scalar v h => exact readable_scalar h
  | text s => exact readable_text s
  | list items ih => exact readable_list ih
  | object fields ih => exact readable_object ih

/-- **Values with one text are the same up to the order of fields.** -/
theorem ordered_eq_of_canonical_eq {v w : Json} (h : v.canonical = w.canonical) : v.ordered = w.ordered := by
  have hnothing : Follows [] := by simp [Follows]
  exact (v.readable hnothing hnothing (by rw [h])).1

/-- What is the same under one function is so under another that the first determines. -/
theorem map_eq_map_of_determines {α β γ : Type} {f : α → β} {g : α → γ} {xs ys : List α}
    (hdetermines : ∀ x ∈ xs, ∀ y, f x = f y → g x = g y) (h : xs.map f = ys.map f) : xs.map g = ys.map g := by
  induction xs generalizing ys with
  | nil => rw [List.map_nil, List.map_eq_nil_iff.1 h.symm, List.map_nil]
  | cons x xs ih =>
    cases ys with
    | nil => simp at h
    | cons y ys =>
      obtain ⟨hhead, htail⟩ := List.cons.inj h
      rw [List.map_cons, List.map_cons, hdetermines x List.mem_cons_self y hhead,
        ih (fun z hz => hdetermines z (List.mem_cons_of_mem x hz)) htail]

/-- Values that are the same up to the order of fields have one text, since writing sorts the fields. -/
theorem canonical_eq_of_ordered_eq {v w : Json} (h : v.ordered = w.ordered) : v.canonical = w.canonical := by
  induction v using induction generalizing w with
  | scalar v hv =>
    rw [ordered_of_isScalar hv] at h
    subst h
    cases w with
    | list items => simp [ordered_list, isScalar] at hv
    | object fields => simp [ordered_object, isScalar] at hv
    | _ => rw [ordered] <;> simp
  | text s => cases w <;> simp_all [ordered]
  | list items ih =>
    rw [ordered_list] at h
    cases w with
    | list items' =>
      rw [ordered_list] at h
      rw [canonical_list, canonical_list,
        map_eq_map_of_determines (fun x hx y => @ih x hx y) (Json.list.inj h)]
    | object fields => simp [ordered_object] at h
    | _ => simp [ordered] at h
  | object fields ih =>
    rw [ordered_object] at h
    cases w with
    | object fields' =>
      rw [ordered_object] at h
      -- A field is written from its key and its value, and the text of the value depends on its order alone.
      have hdetermines : ∀ p ∈ sortFields fields, ∀ q : String × Json,
          (p.1, p.2.ordered) = (q.1, q.2.ordered) → fieldText p = fieldText q := by
        intro p hp q hpq
        obtain ⟨hkey, hvalue⟩ := Prod.mk.inj hpq
        rw [fieldText, fieldText, hkey, ih p ((perm_sortFields fields).subset hp) hvalue]
      rw [canonical_object, canonical_object, map_eq_map_of_determines hdetermines (Json.object.inj h)]
    | list items => simp [ordered_list] at h
    | _ => simp [ordered] at h

/-- **Values have one canonical text just if they are the same up to the order of fields.** This is what makes a
hash of the text a hash of the value. -/
theorem canonical_eq_iff {v w : Json} : v.canonical = w.canonical ↔ v.ordered = w.ordered :=
  ⟨ordered_eq_of_canonical_eq, canonical_eq_of_ordered_eq⟩

end Json
end Tariff
