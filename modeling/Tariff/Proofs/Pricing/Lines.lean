/-
# The lines of a quote

The breakdown takes the prices of a quote apart by service and loses none that counts (`Price.counts`): one
that names a service, is not zero and is billed in one of the three ways. Each service with such a price has
one line, each such price is on the line of its service, and no price is on two lines
(`Quote.lines_keep_prices`).

| | from | in the order of |
| --- | --- | --- |
| lines | services with a price that counts | the service catalog, then the prices |
| ids on a line | prices of its service that count | the prices |
-/

import Mathlib.Data.List.Basic
import Tariff.Proofs.Names
import Tariff.Proofs.Pricing.Composition

namespace Tariff

/-- Sorting a list by the keys of its members loses and repeats nothing. -/
theorem flatMap_filter_perm {α κ : Type} [DecidableEq κ] (key : α → κ) {keys : List κ} (hkeys : keys.Nodup)
    {xs : List α} (hxs : ∀ x ∈ xs, key x ∈ keys) :
    (keys.flatMap fun k => xs.filter fun x => key x = k).Perm xs := by
  induction keys generalizing xs with
  | nil =>
    obtain rfl : xs = [] := List.eq_nil_iff_forall_not_mem.2 fun x hx => by simpa using hxs x hx
    exact .refl _
  | cons k keys ih =>
    obtain ⟨hk, hkeys⟩ := List.nodup_cons.1 hkeys
    -- What has another key is sorted by the other keys.
    let others := xs.filter fun x => !decide (key x = k)
    have hothers : ∀ x ∈ others, key x ∈ keys := by
      intro x hx
      obtain ⟨hx, hne⟩ := List.mem_filter.1 hx
      exact (List.mem_cons.1 (hxs x hx)).resolve_left (by simpa using hne)
    have hrest : (keys.flatMap fun other => xs.filter fun x => key x = other) =
        keys.flatMap fun other => others.filter fun x => key x = other := by
      refine List.flatMap_congr fun other hother => ?_
      rw [List.filter_filter]
      refine List.filter_congr fun x _ => ?_
      have hne : other ≠ k := fun heq => hk (heq ▸ hother)
      by_cases hx : key x = other
      · simp [hx, hne]
      · simp [hx]
    rw [List.flatMap_cons, hrest]
    exact ((ih hkeys hothers).append_left _).trans (List.filter_append_perm _ xs)

/-- The frequencies are the billings that are known. -/
theorem Frequency.isSome_ofName? (name : String) : (ofName? name).isSome = Billing.known.contains name := by
  have hknown : Billing.known = all.map Frequency.name := rfl
  rw [Bool.eq_iff_iff, ofName?, List.find?_isSome, List.contains_iff_mem, hknown, List.mem_map]
  simp only [decide_eq_true_eq]

/-- Whether a price counts on a line: it names a service, is not zero and is billed monthly, once or annually. -/
def Price.counts (p : Price) : Bool :=
  (nonEmpty? p.service).isSome && !p.value.isZero && p.billing.any Billing.known.contains

namespace Breakdown

variable {rows : List Service} {prices : List Price} {service title : String}

/-! ### Which prices are on a line -/

/-- A price has a column in the line of a service just if it counts and is for that service. -/
theorem isSome_column? (h : service ≠ "") (p : Price) :
    (column? service p).isSome = (p.counts && p.service = some service) := by
  have hbilling : (p.billing.bind Frequency.ofName?).isSome = p.billing.any Billing.known.contains := by
    cases p.billing with
    | none => rfl
    | some billing => exact Frequency.isSome_ofName? billing
  by_cases hservice : p.service = some service
  · have hnamed : (nonEmpty? p.service).isSome := by
      rw [nonEmpty?_eq_some_iff.2 ⟨hservice, h⟩]
      rfl
    cases hzero : p.value.isZero with
    | true => simp [column?, Price.counts, hzero]
    | false => simp [column?, Price.counts, hservice, hzero, hbilling, hservice ▸ hnamed]
  · simp [column?, hservice]

/-- The prices of a line are those that count, for its service, in the order of the ledger. -/
theorem counted_eq (h : service ≠ "") (prices : List Price) :
    counted service prices = (prices.filter Price.counts).filter fun p => p.service = some service := by
  rw [counted, List.filter_filter]
  refine List.filter_congr fun p _ => ?_
  rw [isSome_column? h, Bool.and_comm]

/-! ### Lines -/

/-- The sums of the prices of a service. -/
def sums (service : String) (prices : List Price) : Fees :=
  ⟨sum service prices .monthly, sum service prices .oneTime, sum service prices .annual⟩

/-- What a line says of the prices of its service: some count, it has their ids, and its fees are their sums,
raised by the rows of the catalog and rounded. -/
structure Shows (rows : List Service) (prices : List Price) (line : Line) : Prop where
  counted_ne_nil : counted line.service prices ≠ []
  ruleIds : line.ruleIds = (counted line.service prices).map Price.ruleId
  fees : (rows.foldl (raise line.service) (sums line.service prices, [])).1.cents = .ok line.fees

/-- A service has a line just if a price counts on it. -/
theorem line?_eq_ok {found : Option (Line × List Entry)} (h : line? rows prices service title = .ok found) :
    match found with
    | some (line, _) => line.service = service ∧ Shows rows prices line
    | none => counted service prices = [] := by
  unfold line? at h
  dsimp only at h
  split at h
  · rename_i hempty
    obtain rfl := Except.ok.inj h
    exact List.isEmpty_iff.1 hempty
  · rename_i hsome
    obtain ⟨fees, hfees, h⟩ := bind_eq_ok_iff.1 h
    obtain ⟨year, -, h⟩ := bind_eq_ok_iff.1 h
    obtain rfl := Except.ok.inj h
    exact ⟨rfl, fun hnil => hsome (List.isEmpty_iff.2 hnil), rfl, hfees⟩

/-- **There is a line for each service with a price that counts**, in the order in which the services are
listed, and each line shows its own. -/
theorem lines_eq_ok {titled : List (String × String)} {found : List Line × List Entry}
    (h : lines rows prices titled = .ok found) :
    found.1.map Line.service = (titled.map Prod.fst).filter (fun service => counted service prices ≠ []) ∧
      ∀ line ∈ found.1, Shows rows prices line := by
  induction titled generalizing found with
  | nil =>
    obtain rfl := Except.ok.inj h
    exact ⟨rfl, nofun⟩
  | cons head titled ih =>
    obtain ⟨line, hline, h⟩ := bind_eq_ok_iff.1 h
    obtain ⟨⟨more, entries⟩, hmore, h⟩ := bind_eq_ok_iff.1 h
    obtain ⟨hservices, hshows⟩ := ih hmore
    have hhead := line?_eq_ok hline
    cases line with
    | none =>
      obtain rfl := Except.ok.inj h
      exact ⟨by simp [hservices, hhead], hshows⟩
    | some noted =>
      obtain ⟨hservice, hown⟩ := hhead
      have hcounts : counted head.1 prices ≠ [] := hservice ▸ hown.counted_ne_nil
      obtain rfl := Except.ok.inj h
      refine ⟨by simp [hservices, hservice, hcounts], fun line hmem => ?_⟩
      rcases List.mem_cons.1 hmem with rfl | hmem
      · exact hown
      · exact hshows line hmem

/-! ### The order of the lines -/

/-- Titled services have the services in the order of their first places. -/
theorem map_fst_foldl {α : Type} (id title : α → String) (xs : List α) (seen : List (String × String)) :
    (xs.foldl (fun seen x =>
        if (lookup? (id x) seen).isSome then seen else seen ++ [(id x, title x)]) seen).map Prod.fst =
      (xs.map id).foldl (fun seen id => if seen.contains id then seen else seen ++ [id])
        (seen.map Prod.fst) := by
  induction xs generalizing seen with
  | nil => rfl
  | cons x xs ih =>
    rw [List.foldl_cons, ih, List.map_cons, List.foldl_cons]
    congr 1
    by_cases hseen : id x ∈ seen.map Prod.fst
    · rw [if_pos (isSome_lookup?.2 hseen), if_pos (List.contains_iff_mem.2 hseen)]
    · rw [if_neg (mt isSome_lookup?.1 hseen), if_neg (mt List.contains_iff_mem.1 hseen), List.map_append,
        List.map_singleton]

/-- The services that may have a line, in order: those of the catalog, then further ones of the prices. -/
def listed (rows : List Service) (prices : List Price) : List String :=
  Formula.firsts (rows.map Service.id ++ prices.filterMap fun p => nonEmpty? p.service)

/-- The services are listed by their rows, and then by the prices of services without a row. -/
theorem map_fst_services (rows : List Service) (prices : List Price) :
    (services rows prices).map Prod.fst = listed rows prices := by
  rw [services, map_fst_foldl (fun id => id) (fun id => id), map_fst_foldl Service.id, List.map_id', listed,
    Formula.firsts, List.foldl_append, List.map_nil]

/-- No listed service has an empty id, if no row has one. -/
theorem ne_empty_of_mem_listed (hids : ∀ row ∈ rows, row.id ≠ "") {id : String} (h : id ∈ listed rows prices) :
    id ≠ "" := by
  rcases List.mem_append.1 ((Formula.mem_firsts _).1 h) with hcatalog | hpriced
  · obtain ⟨row, hrow, rfl⟩ := List.mem_map.1 hcatalog
    exact hids row hrow
  · obtain ⟨p, -, hservice⟩ := List.mem_filterMap.1 hpriced
    exact (nonEmpty?_eq_some_iff.1 hservice).2

/-- A price that counts names a service that may have a line. -/
theorem exists_service_of_counts {p : Price} (hp : p ∈ prices.filter Price.counts) (rows : List Service) :
    ∃ id ∈ listed rows prices, p.service = some id := by
  obtain ⟨hp, hcounts⟩ := List.mem_filter.1 hp
  simp only [Price.counts, Bool.and_eq_true] at hcounts
  obtain ⟨id, hid⟩ := Option.isSome_iff_exists.1 hcounts.1.1
  refine ⟨id, (Formula.mem_firsts _).2 (List.mem_append_right _ ?_), (nonEmpty?_eq_some_iff.1 hid).1⟩
  exact List.mem_filterMap.2 ⟨p, hp, hid⟩

variable {found : List Line × List Entry}

/-- The services of the lines are those listed that have a price that counts. -/
theorem map_service_of_ofPrices (h : ofPrices rows prices = .ok found) (hids : ∀ row ∈ rows, row.id ≠ "") :
    found.1.map Line.service = (listed rows prices).filter fun id =>
      (prices.filter Price.counts).any fun p => p.service = some id := by
  rw [(lines_eq_ok h).1, map_fst_services]
  refine List.filter_congr fun id hid => ?_
  rw [counted_eq (ne_empty_of_mem_listed hids hid), Bool.eq_iff_iff, decide_eq_true_eq, List.any_eq_true, ne_eq,
    List.filter_eq_nil_iff]
  simp only [not_forall, not_not, exists_prop]

/-- The rules of a line are those of its prices that count, in the order of the ledger. -/
theorem ruleIds_of_ofPrices (h : ofPrices rows prices = .ok found) (hids : ∀ row ∈ rows, row.id ≠ "")
    {line : Line} (hline : line ∈ found.1) :
    line.ruleIds =
      ((prices.filter Price.counts).filter fun p => p.service = some line.service).map Price.ruleId := by
  have hservice : line.service ∈ listed rows prices := by
    have hmem := List.mem_map_of_mem (f := Line.service) hline
    rw [map_service_of_ofPrices h hids] at hmem
    exact (List.mem_filter.1 hmem).1
  rw [((lines_eq_ok h).2 line hline).ruleIds, counted_eq (ne_empty_of_mem_listed hids hservice)]

/-- No service has two lines. -/
theorem nodup_services_of_ofPrices (h : ofPrices rows prices = .ok found) (hids : ∀ row ∈ rows, row.id ≠ "") :
    (found.1.map Line.service).Nodup := by
  rw [map_service_of_ofPrices h hids]
  exact (Formula.nodup_firsts _).filter _

/-- **The lines together have the prices that count.** None is lost, since each service with such a price is
listed, and none is repeated, since it is listed once. -/
theorem flatMap_ruleIds_perm (h : ofPrices rows prices = .ok found) (hids : ∀ row ∈ rows, row.id ≠ "") :
    (found.1.flatMap Line.ruleIds).Perm ((prices.filter Price.counts).map Price.ruleId) := by
  let kept := prices.filter Price.counts
  let keys := found.1.map fun line => some line.service
  have hkeys : keys.Nodup := by
    have hnodup := nodup_services_of_ofPrices h hids
    rw [List.Nodup, List.pairwise_map] at hnodup ⊢
    exact hnodup.imp fun hne heq => hne (Option.some.inj heq)
  have hkept : ∀ p ∈ kept, p.service ∈ keys := by
    intro p hp
    obtain ⟨id, hid, hservice⟩ := exists_service_of_counts hp rows
    have hlisted : id ∈ found.1.map Line.service := by
      rw [map_service_of_ofPrices h hids]
      exact List.mem_filter.2 ⟨hid, List.any_eq_true.2 ⟨p, hp, decide_eq_true hservice⟩⟩
    obtain ⟨line, hline, rfl⟩ := List.mem_map.1 hlisted
    exact List.mem_map.2 ⟨line, hline, hservice.symm⟩
  have hsorted : found.1.flatMap Line.ruleIds =
      (keys.flatMap fun key => kept.filter fun p => p.service = key).map Price.ruleId := by
    rw [List.flatMap_map, List.map_flatMap]
    exact List.flatMap_congr fun line hline => ruleIds_of_ofPrices h hids hline
  rw [hsorted]
  exact (flatMap_filter_perm Price.service hkeys hkept).map Price.ruleId

end Breakdown

/-! ### Quotes -/

namespace Quote

/-- **The breakdown loses and repeats nothing.** If every service row has an id, no service has two lines, and
the ids on all lines together are those of the prices that count, each once. A line has the prices of its
service that count, in the order of the prices, and the lines are those of the services with such a price, in
the order in which these come first in the catalog and then in the prices. -/
theorem lines_keep_prices {catalog : Catalog} {terms : Terms} {answers : Json} {selection : Selection}
    {q : Quote} (h : calculate catalog terms answers selection = .ok q)
    (hids : ∀ row ∈ catalog.services, row.id ≠ "") :
    (q.lines.map Line.service).Nodup ∧
      (q.lines.flatMap Line.ruleIds).Perm ((q.prices.filter Price.counts).map Price.ruleId) ∧
      (q.lines.flatMap Line.ruleIds).Nodup ∧
      (∀ line ∈ q.lines, line.ruleIds =
        ((q.prices.filter Price.counts).filter fun p => p.service = some line.service).map Price.ruleId) ∧
      q.lines.map Line.service =
        (Breakdown.listed catalog.services q.prices).filter fun id =>
          (q.prices.filter Price.counts).any fun p => p.service = some id := by
  obtain ⟨p, -, hprices, -, noted, hlines⟩ := exists_pass_of_calculate h
  rw [← hprices] at hlines
  have hperm := Breakdown.flatMap_ruleIds_perm hlines hids
  have hunique : ((q.prices.filter Price.counts).map Price.ruleId).Nodup := by
    have hsublist := (List.filter_sublist (p := Price.counts) (l := p.ledger.prices)).map Price.ruleId
    rw [hprices]
    exact hsublist.nodup p.ledger.unique
  refine ⟨Breakdown.nodup_services_of_ofPrices hlines hids, hperm, hperm.nodup_iff.2 hunique, ?_,
    Breakdown.map_service_of_ofPrices hlines hids⟩
  exact fun line hline => Breakdown.ruleIds_of_ofPrices hlines hids hline

/-- A service with two rows and one without prices; a price of a service that the catalog does not list, a zero
and a price that is billed weekly. -/
def studioCatalog : Catalog where
  rules := [
    { id := "light", method := "simple", basePrice := .ofNat 4, service := some "lamp", billing := some "Annual" },
    { id := "rent", method := "simple", basePrice := .ofNat 50, service := some "desk", billing := some "Monthly" },
    { id := "gift", method := "simple", service := some "desk", billing := some "Monthly" },
    { id := "wash", method := "simple", basePrice := .ofNat 3, service := some "desk", billing := some "Weekly" },
    { id := "move", method := "simple", basePrice := .ofNat 9, service := some "desk",
      billing := some "One-Time Fee" }]
  services := [{ id := "shelf" }, { id := "desk", total := some "deskTotal" },
    { id := "desk", billing := some "Monthly" }]

/-- A studio with prices for two services, of which the second is listed for its price only. -/
theorem lines_keep_prices_studioCatalog :
    ∃ q, calculate studioCatalog {} (.object []) none = .ok q ∧
      (∀ row ∈ studioCatalog.services, row.id ≠ "") ∧
      q.lines.map Line.service = ["desk", "lamp"] ∧
      (q.lines.flatMap Line.ruleIds).Perm ["light", "rent", "move"] := by
  have hids : ∀ row ∈ studioCatalog.services, row.id ≠ "" := by decide
  have hcounted : (calculate studioCatalog {} (.object []) none).toOption.map (fun q =>
      ((q.prices.filter Price.counts).map Price.ruleId, q.lines.map Line.service)) =
        some (["light", "rent", "move"], ["desk", "lamp"]) := by
    decide +kernel
  obtain ⟨q, hq, hcounted⟩ := exists_of_toOption_map hcounted
  obtain ⟨hruleIds, hservices⟩ := Prod.mk.inj hcounted
  exact ⟨q, hq, hids, hservices, hruleIds ▸ (lines_keep_prices hq hids).2.1⟩

end Quote
end Tariff
