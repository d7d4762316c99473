/-
# What a fingerprint is taken of determines the catalog

The text that a fingerprint is taken of is canonical, so it determines what is written in each field of each rule and
service, in order and whatever is written there (`Catalog.payload_eq_iff_held`): numbers with their kind, text, and
null where nothing is. A rule and a service can be known from what is written of them (`Rule.held_injective`,
`Service.held_injective`), so catalogs with one text are the same (`Catalog.canonical_determines`).

The sets of a filter have no order of their own. In whatever sequence their names are visited, sorting gives the one
ascending list of them (`NameSet.Visit.sorted_eq`), and the text comes out the same.
-/

import Mathlib.Data.List.Nodup
import Tariff.Catalog.Fingerprint
import Tariff.Proofs.Json.Unambiguous

namespace Tariff

/-! ### Records -/

namespace Json

/-- The fields of an object. -/
def fields : Json → List (String × Json)
  | object fields => fields
  | _ => []

/-- Anything written under some keys. -/
structure Record (keys : List String) where
  fields : List (String × Json)
  named : fields.map Prod.fst = keys

namespace Record

variable {keys : List String}

def toJson (a : Record keys) : Json := .object a.fields

/-- What is written, key by key. -/
def held (a : Record keys) : List Json := a.fields.map fun p => p.2.ordered

/-- Records with the same keys are the same up to order if and only if they hold the same under each key. -/
theorem ordered_fields_eq_iff {a b : Record keys} :
    (a.fields.map fun p => (p.1, p.2.ordered)) = b.fields.map (fun p => (p.1, p.2.ordered)) ↔ a.held = b.held := by
  have hsplit (c : Record keys) : (c.fields.map fun p => (p.1, p.2.ordered)) = keys.zip c.held := by
    have hzip : (c.fields.map Prod.fst).zip c.held = c.fields.map fun p => (p.1, p.2.ordered) := List.zip_map'
    rw [c.named] at hzip
    exact hzip.symm
  have hlength (c : Record keys) : c.held.length = keys.length := by
    rw [held, List.length_map, ← congrArg List.length c.named, List.length_map]
  rw [hsplit, hsplit]
  constructor
  · intro h
    have := congrArg (List.map Prod.snd) h
    rwa [List.map_snd_zip (Nat.le_of_eq (hlength a)), List.map_snd_zip (Nat.le_of_eq (hlength b))] at this
  · intro h
    rw [h]

/-- **In canonical text records of different keys are told apart by what is written.** Sorting moves fields
alike in records with the same keys, so it can be undone. -/
theorem ordered_toJson_eq_iff (hkeys : keys.Nodup) {a b : Record keys} :
    a.toJson.ordered = b.toJson.ordered ↔ a.held = b.held := by
  rw [← ordered_fields_eq_iff, toJson, toJson, ordered_object, ordered_object, Json.object.injEq, ← sortFields_map,
    ← sortFields_map]
  constructor
  · intro h
    have hnames (c : Record keys) : (c.fields.map fun p => (p.1, p.2.ordered)).map Prod.fst = keys := by
      rw [List.map_map]
      exact c.named
    exact eq_of_sortFields_eq ((hnames a).trans (hnames b).symm) (by rwa [hnames a]) h
  · intro h
    rw [h]

/-- Lists of records are the same up to order of fields just if their records hold the same, one by one: the
records themselves keep their places. -/
theorem map_ordered_eq_iff (hkeys : keys.Nodup) {as bs : List (Record keys)} :
    (as.map toJson).map ordered = (bs.map toJson).map ordered ↔ as.map held = bs.map held := by
  rw [List.map_map, List.map_map]
  constructor
  · exact map_eq_map_of_determines fun a _ b h => (ordered_toJson_eq_iff hkeys).1 h
  · exact map_eq_map_of_determines fun a _ b h => (ordered_toJson_eq_iff hkeys).2 h

end Record

theorem ordered_ofReal? (x : Option Binary64) : (ofReal? x).ordered = ofReal? x := by
  cases x <;> rw [ofReal?, ordered] <;> simp

theorem ordered_ofText? (s : Option String) : (ofText? s).ordered = ofText? s := by
  cases s <;> rw [ofText?, ordered] <;> simp

/-- What is written tells a number from none, and numbers from each other. -/
theorem ofReal?_inj {x y : Option Binary64} : ofReal? x = ofReal? y ↔ x = y := by
  cases x <;> cases y <;> simp [ofReal?]

/-- What is written tells a text from none, the empty text too, and texts from each other. -/
theorem ofText?_inj {s t : Option String} : ofText? s = ofText? t ↔ s = t := by
  cases s <;> cases t <;> simp [ofText?]

theorem ordered_ofTexts (xs : List String) : (ofTexts xs).ordered = ofTexts xs := by
  simp [ofTexts, ordered_list, ordered]

theorem ofTexts_inj {xs ys : List String} : ofTexts xs = ofTexts ys ↔ xs = ys := by
  rw [ofTexts, ofTexts, Json.list.injEq]
  exact List.map_inj_right fun s t => Json.text.inj

end Json

/-! ### Rules and services -/

/-- The names of the fields of a rule. -/
def Rule.keys : List String := (Rule.record { id := "" }).fields.map Prod.fst

def Filter.keys : List String := (Filter.record {}).fields.map Prod.fst

def Service.keys : List String := (Service.record { id := "" }).fields.map Prod.fst

def Rule.toRecord (r : Rule) : Json.Record Rule.keys := ⟨r.record.fields, rfl⟩

def Filter.toRecord (f : Filter) : Json.Record Filter.keys := ⟨f.record.fields, rfl⟩

def Service.toRecord (s : Service) : Json.Record Service.keys := ⟨s.record.fields, rfl⟩

theorem Rule.nodup_keys : Rule.keys.Nodup := by decide

theorem Filter.nodup_keys : Filter.keys.Nodup := by decide

theorem Service.nodup_keys : Service.keys.Nodup := by decide

/-- **A rule is known from what is written in its fields.** -/
theorem Rule.held_injective : Function.Injective fun a : Rule => a.toRecord.held := by
  intro a b h
  cases a
  cases b
  simpa only [Json.Record.held, Rule.toRecord, Json.fields, Rule.record, List.map_cons, Json.ordered_ofReal?,
    Json.ordered_ofText?, Json.ordered, List.map_nil, List.cons.injEq, Json.text.injEq, Json.bool.injEq,
    Json.real.injEq, Json.ofReal?_inj, Json.ofText?_inj, and_true, Rule.mk.injEq] using h

/-- **A filter is known from what is written of it**: every field is among those written. -/
theorem Filter.held_injective : Function.Injective fun a : Filter => a.toRecord.held := by
  intro a b h
  cases a
  cases b
  simpa only [Json.Record.held, Filter.toRecord, Json.fields, Filter.record, List.map_cons, Json.ordered_ofTexts,
    Json.ordered, List.map_nil, List.cons.injEq, Json.ofTexts_inj, NameSet.ext_names, Json.real.injEq, and_true,
    Filter.mk.injEq] using h

/-- A filter that is missing is told from every one that is there. -/
theorem Filter.ordered_form_inj {f g : Option Filter} :
    ((f.map Filter.record).getD .null).ordered = ((g.map Filter.record).getD .null).ordered ↔ f = g := by
  constructor
  · intro h
    cases f with
    | none =>
      cases g with
      | none => rfl
      | some g => simp [Json.ordered, Filter.record] at h
    | some f =>
      cases g with
      | none => simp [Json.ordered, Filter.record] at h
      | some g =>
        have hheld := (Json.Record.ordered_toJson_eq_iff Filter.nodup_keys (a := f.toRecord) (b := g.toRecord)).1 h
        rw [Filter.held_injective hheld]
  · intro h
    rw [h]

/-- **A service is known from what is written of it**, its filter with it. -/
theorem Service.held_injective : Function.Injective fun a : Service => a.toRecord.held := by
  intro a b h
  cases a
  cases b
  simpa only [Json.Record.held, Service.toRecord, Json.fields, Service.record, Service.recordWith, List.map_cons,
    Json.ordered_ofText?, Filter.ordered_form_inj, Json.ordered, List.map_nil, List.cons.injEq, Json.text.injEq,
    Json.bool.injEq, Json.int.injEq, Json.ofText?_inj, and_true, Service.mk.injEq] using h

/-! ### The text of a catalog -/

namespace Catalog

/-- Rules and services as they are written. -/
def payload (rules services : List Json) : Json := .object [("rules", .list rules), ("services", .list services)]

/-- The text of rules and services tells where the ones end and the others begin. -/
theorem canonical_payload_eq_iff {rules rules' services services' : List Json} :
    (payload rules services).canonical = (payload rules' services').canonical ↔
      rules.map Json.ordered = rules'.map Json.ordered ∧ services.map Json.ordered = services'.map Json.ordered := by
  have hkeys : ["rules", "services"].Nodup := by decide
  have hheld := Json.Record.ordered_toJson_eq_iff hkeys
    (a := ⟨[("rules", .list rules), ("services", .list services)], rfl⟩)
    (b := ⟨[("rules", .list rules'), ("services", .list services')], rfl⟩)
  rw [Json.canonical_eq_iff]
  refine hheld.trans ?_
  simp [Json.Record.held, Json.ordered_list]

/-- Rules and services are told apart field by field, whatever is written in their fields. -/
theorem payload_eq_iff_held {rules rules' : List (Json.Record Rule.keys)}
    {services services' : List (Json.Record Service.keys)} :
    (payload (rules.map Json.Record.toJson) (services.map Json.Record.toJson)).canonical =
        (payload (rules'.map Json.Record.toJson) (services'.map Json.Record.toJson)).canonical ↔
      rules.map Json.Record.held = rules'.map Json.Record.held ∧
        services.map Json.Record.held = services'.map Json.Record.held := by
  rw [canonical_payload_eq_iff, Json.Record.map_ordered_eq_iff Rule.nodup_keys,
    Json.Record.map_ordered_eq_iff Service.nodup_keys]

/-- The text of a catalog is that of its rules and services, as records. -/
theorem canonical_eq_payload (c : Catalog) : c.canonical =
    (payload ((c.rules.map Rule.toRecord).map Json.Record.toJson)
      ((c.services.map Service.toRecord).map Json.Record.toJson)).canonical := by
  rw [List.map_map, List.map_map]
  rfl

/-- **Catalogs with one text are the same.** The text tells what is written of each rule and service, and from
that each of them is known. -/
theorem canonical_inj {c d : Catalog} : c.canonical = d.canonical ↔ c = d := by
  constructor
  · intro h
    rw [canonical_eq_payload, canonical_eq_payload, payload_eq_iff_held, List.map_map, List.map_map, List.map_map,
      List.map_map] at h
    have hrules : c.rules = d.rules := List.map_injective_iff.2 Rule.held_injective h.1
    have hservices : c.services = d.services := List.map_injective_iff.2 Service.held_injective h.2
    calc
      c = ⟨c.rules, c.services⟩ := rfl
      _ = ⟨d.rules, d.services⟩ := by rw [hrules, hservices]
      _ = d := rfl
  · intro h
    rw [h]

end Catalog

/-! ### Sets in any sequence -/

/-- The names of a set in the sequence in which they happen to be visited. -/
structure NameSet.Visit (s : NameSet) where
  names : List String
  nodup : names.Nodup
  mem_iff : ∀ x, x ∈ names ↔ x ∈ s.names

namespace NameSet

variable {s : NameSet}

/-- Backwards, for one. -/
instance : Inhabited s.Visit :=
  ⟨⟨s.names.reverse, List.nodup_reverse.2 s.nodup_names, fun _ => List.mem_reverse⟩⟩

def Visit.sorted (visit : s.Visit) : List String := visit.names.mergeSort

/-- **However a set is visited, its names come out ascending.** -/
theorem Visit.sorted_eq (visit : s.Visit) : visit.sorted = s.names := by
  have hperm : visit.sorted.Perm s.names :=
    (List.mergeSort_perm _ _).trans ((List.perm_ext_iff_of_nodup visit.nodup s.nodup_names).2 visit.mem_iff)
  have hsorted : visit.sorted.Pairwise (· ≤ ·) := by
    have := @List.pairwise_mergeSort String (fun a b => decide (a ≤ b))
      (fun a b c hab hbc => by simpa using String.le_trans (by simpa using hab) (by simpa using hbc))
      (fun a b => by simpa using String.le_total a b) visit.names
    simpa [Visit.sorted] using this
  have hnames : s.names.Pairwise (· ≤ ·) := s.ascending.imp fun h => String.not_lt.1 (String.lt_asymm h)
  exact hperm.eq_of_pairwise (fun a b _ _ => String.le_antisymm) hsorted hnames

end NameSet

/-- The sets of a filter, each visited in some sequence. -/
structure Filter.Visit (f : Filter) where
  includeTypes : f.includeTypes.Visit
  excludeTypes : f.excludeTypes.Visit
  includeBillings : f.includeBillings.Visit
  excludeBillings : f.excludeBillings.Visit

/-- A filter with its sets sorted as they are visited. -/
def Filter.Visit.record {f : Filter} (visit : f.Visit) : Json :=
  .object [
    ("include_types", .ofTexts visit.includeTypes.sorted),
    ("exclude_types", .ofTexts visit.excludeTypes.sorted),
    ("include_billing_frequencies", .ofTexts visit.includeBillings.sorted),
    ("exclude_billing_frequencies", .ofTexts visit.excludeBillings.sorted),
    ("minimum_fee", .real f.minimumFee)]

/-- However the sets of a filter are visited, the filter is written the same. -/
theorem Filter.Visit.record_eq {f : Filter} (visit : f.Visit) : visit.record = f.record := by
  simp only [Filter.Visit.record, NameSet.Visit.sorted_eq, Filter.record]

namespace Catalog

/-- The text of a catalog whose sets are visited in some sequence, which may be another for each service. -/
def canonicalVisiting (c : Catalog) (visits : Nat → ∀ f : Filter, f.Visit) : String :=
  (payload (c.rules.map Rule.record)
    (c.services.mapIdx fun i s => s.recordWith fun f => (visits i f).record)).canonical

/-- However the sets of the filters are visited, for each service in its own way, the text of the catalog is the
same. -/
theorem canonicalVisiting_eq (c : Catalog) (visits : Nat → ∀ f : Filter, f.Visit) :
    c.canonicalVisiting visits = c.canonical := by
  have hservice (i : Nat) (s : Service) : (s.recordWith fun f => (visits i f).record) = s.record := by
    rw [Service.record, funext fun f => (visits i f).record_eq]
  have hservices : (c.services.mapIdx fun i s => s.recordWith fun f => (visits i f).record) =
      c.services.map Service.record := by
    simp only [hservice]
    exact List.ext_getElem (by simp) (by simp)
  rw [canonicalVisiting, hservices]
  rfl

/-- **The text that a fingerprint is taken of determines the catalog, and no sequence of names in a set changes it.**
Two catalogs have one text just if they are the same. What is written may be anything: records under the names of
fields of rules and services have one text just if they are as many and hold the same, field by field. -/
theorem canonical_determines :
    (∀ c d : Catalog, c.canonical = d.canonical ↔ c = d) ∧
    (∀ (rules rules' : List (Json.Record Rule.keys)) (services services' : List (Json.Record Service.keys)),
      (payload (rules.map Json.Record.toJson) (services.map Json.Record.toJson)).canonical =
          (payload (rules'.map Json.Record.toJson) (services'.map Json.Record.toJson)).canonical ↔
        rules.map Json.Record.held = rules'.map Json.Record.held ∧
          services.map Json.Record.held = services'.map Json.Record.held) ∧
    (∀ (c : Catalog) (visits : Nat → ∀ f : Filter, f.Visit), c.canonicalVisiting visits = c.canonical) :=
  ⟨fun _ _ => canonical_inj, fun _ _ _ _ => payload_eq_iff_held, canonicalVisiting_eq⟩

end Catalog
end Tariff
