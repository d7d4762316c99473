/-
# Catalogs that cannot be loaded

A fault of a catalog file has a message, and the message is what a client who asks for a reload is told. Three faults
have none, and with one of them the answer to the client breaks off:

| what is wrong | where |
| --- | --- |
| two columns have one name but for white space | the header of either file |
| a minimum fee is a whole number beyond binary64 | a row of the service catalog |
| the place of a service is infinite | a row of the service catalog |

These are all the ways (`CatalogFiles.Escapes`): whatever the files hold, they are loaded or give a fault with a
message, unless what is wrong first is one of the three (`CatalogFiles.load_or_message_iff`).
-/

import Tariff.Proofs.Reloading
import Tariff.Proofs.Web.Responses

namespace Tariff

open Csv (Row)

/-- A fault that no message goes with. -/
def LoadFault.IsSilent (fault : LoadFault) : Prop := fault.message? = none

/-! ### Filters -/

namespace Filter

/-- A JSON value writes a filter in all but its minimum fee, which is a whole number beyond binary64. -/
structure HasHugeFee (data : Json) : Prop where
  isObject : ∃ fields, data = .object fields
  includeTypes : ∃ s, pickSet data "includeTypes" "include_types" (.ofList Category.counted) = .ok s
  excludeTypes : ∃ s, pickSet data "excludeTypes" "exclude_types" .empty = .ok s
  includeBillings : ∃ s, pickSet data "includeBillingFrequencies" "include_billing_frequencies"
    (.ofList Billing.known) = .ok s
  excludeBillings : ∃ s, pickSet data "excludeBillingFrequencies" "exclude_billing_frequencies" .empty = .ok s
  fee : ∃ n, pick data "minimumFee" "minimum_fee" = some (.int n) ∧ (Binary64.ofInt n).isFinite = false

/-- A set of names that cannot be read is another fault than a fee that is too large. -/
theorem pickSet_ne_feeTooLarge {data : Json} {key other : String} {default : NameSet} :
    pickSet data key other default ≠ .error .feeTooLarge := by
  unfold pickSet
  split
  · nofun
  · split
    · nofun
    · nofun
  · nofun

/-- A fee is too large just if it is a whole number that no binary64 comes near. -/
theorem fee_eq_feeTooLarge_iff {v : Json} :
    fee v = .error .feeTooLarge ↔ ∃ n, v = .int n ∧ (Binary64.ofInt n).isFinite = false := by
  have hzero : (Binary64.ofInt 0).isFinite := by decide +kernel
  unfold fee
  constructor
  · intro h
    split at h
    · cases h
    · split at h
      · cases h
      · rename_i n _
        split at h
        · cases h
        · rename_i hhuge
          exact ⟨n, rfl, Bool.not_eq_true _ ▸ hhuge⟩
      · cases h
      · split at h <;> cases h
      · cases h
  · rintro ⟨n, rfl, hhuge⟩
    have hne : n ≠ 0 := by
      rintro rfl
      rw [hhuge] at hzero
      cases hzero
    rw [if_neg (by simpa [Json.isBlankValue] using hne)]
    dsimp only
    rw [if_neg (by simp [hhuge])]

/-- The minimum fee is read last. -/
theorem ofJson_object_eq_feeTooLarge_iff {fields : List (String × Json)} :
    ofJson (.object fields) = .error .feeTooLarge ↔ HasHugeFee (.object fields) := by
  constructor
  · intro h
    obtain ⟨data, hdata, h⟩ := (bind_eq_error_iff.1 h).resolve_left nofun
    obtain rfl := Except.ok.inj hdata
    obtain ⟨includeTypes, hinclude, h⟩ := (bind_eq_error_iff.1 h).resolve_left pickSet_ne_feeTooLarge
    obtain ⟨excludeTypes, hexclude, h⟩ := (bind_eq_error_iff.1 h).resolve_left pickSet_ne_feeTooLarge
    obtain ⟨includeBillings, hincludeB, h⟩ := (bind_eq_error_iff.1 h).resolve_left pickSet_ne_feeTooLarge
    obtain ⟨excludeBillings, hexcludeB, h⟩ := (bind_eq_error_iff.1 h).resolve_left pickSet_ne_feeTooLarge
    have hfee := (bind_eq_error_iff.1 h).resolve_right fun ⟨_, _, h⟩ => by cases h
    refine ⟨⟨fields, rfl⟩, ⟨_, hinclude⟩, ⟨_, hexclude⟩, ⟨_, hincludeB⟩, ⟨_, hexcludeB⟩, ?_⟩
    cases hpick : pick (.object fields) "minimumFee" "minimum_fee" with
    | none =>
      rw [hpick] at hfee
      cases hfee
    | some v =>
      rw [hpick] at hfee
      obtain ⟨n, rfl, hhuge⟩ := fee_eq_feeTooLarge_iff.1 hfee
      exact ⟨n, rfl, hhuge⟩
  · rintro ⟨-, ⟨includeTypes, hinclude⟩, ⟨excludeTypes, hexclude⟩, ⟨includeBillings, hincludeB⟩,
      ⟨excludeBillings, hexcludeB⟩, n, hpick, hhuge⟩
    have hfee := fee_eq_feeTooLarge_iff.2 ⟨n, rfl, hhuge⟩
    unfold ofJson
    dsimp only
    rw [ok_bind, hinclude, ok_bind, hexclude, ok_bind, hincludeB, ok_bind, hexcludeB, ok_bind, hpick,
      Option.getD_some, hfee]
    rfl

/-- A filter fails for its fee just if everything that is read before the fee can be read. -/
theorem ofJson_eq_feeTooLarge_iff {data : Json} : ofJson data = .error .feeTooLarge ↔ HasHugeFee data := by
  cases data with
  | object fields => exact ofJson_object_eq_feeTooLarge_iff
  -- Null stands for an object without a fee.
  | null =>
    have hempty : ¬ HasHugeFee (.object []) := fun ⟨_, _, _, _, _, _, hpick, _⟩ => by cases hpick
    exact iff_of_false (fun h => hempty (ofJson_object_eq_feeTooLarge_iff.1 h)) fun h => nomatch h.isObject
  | _ => exact iff_of_false nofun fun h => nomatch h.isObject

end Filter

/-! ### Rows -/

namespace Csv.Row

variable {row : Row}

/-- A row of the service catalog holds a number without bound where a whole or finite one is needed: its minimum fee
or, if its filter can be read, its place. -/
inductive IsUnbounded (row : Row) : Prop where
  | fee {text : String} {data : Json} (htext : Row.text? row "aggregation_rules" = some text)
      (hdata : Json.parse? text = some data) (h : Filter.HasHugeFee data)
  | place {s : Bool}
      (hfilter : ∀ text, Row.text? row "aggregation_rules" = some text →
        ∃ data f, Json.parse? text = some data ∧ Filter.ofJson data = .ok f)
      (h : Binary64.parse? (Row.cell row "service_order") = some (.infinite s))

end Csv.Row

section

variable {row : Row} {line : Nat} {id : String} {fault : LoadFault}

theorem Csv.Row.isEmpty_cell_of_text? {column : String} (h : (Row.text? row column).isSome) :
    (Row.cell row column).isEmpty = false := by
  rw [← Bool.not_eq_true, String.isEmpty_iff]
  intro hempty
  have hblank : Cell.text? "" = none := rfl
  rw [Row.text?, hempty, hblank] at h
  cases h

/-- **A rule that cannot be read gives a fault with a message.** -/
theorem Rule.not_isSilent_of_ofRow (h : Rule.ofRow row line = .error fault) : ¬ fault.IsSilent := by
  rcases Rule.ofRow_eq_error h with rfl | ⟨id, rfl⟩
  · nofun
  · nofun

/-- The filter of a row gives a fault without a message just if it has a fee that is too large. -/
theorem exists_silent_filterAt_iff (line : Nat) (id : String) {cell : Option String} :
    (∃ fault, filterAt line id cell = .error fault ∧ fault.IsSilent) ↔
      ∃ text data, cell = some text ∧ Json.parse? text = some data ∧ Filter.HasHugeFee data := by
  constructor
  · rintro ⟨fault, h, hsilent⟩
    unfold filterAt at h
    split at h
    · cases h
    · rename_i text
      split at h
      · obtain rfl := Except.error.inj h
        cases hsilent
      · rename_i data hdata
        split at h
        · cases h
        · rename_i hfee
          exact ⟨text, data, rfl, hdata, Filter.ofJson_eq_feeTooLarge_iff.1 hfee⟩
        · obtain rfl := Except.error.inj h
          cases hsilent
  · rintro ⟨text, data, rfl, hdata, hfee⟩
    refine ⟨.unbounded, ?_, rfl⟩
    simp only [filterAt, hdata, Filter.ofJson_eq_feeTooLarge_iff.2 hfee]

/-- The filter of a row can be read just if there is none or its text writes one. -/
theorem exists_filterAt_eq_ok_iff (line : Nat) (id : String) {cell : Option String} :
    (∃ f, filterAt line id cell = .ok f) ↔
      ∀ text, cell = some text → ∃ data f, Json.parse? text = some data ∧ Filter.ofJson data = .ok f := by
  constructor
  · rintro ⟨f, h⟩ text rfl
    unfold filterAt at h
    dsimp only at h
    split at h
    · cases h
    · rename_i data hdata
      split at h
      · rename_i f hf
        exact ⟨data, f, hdata, hf⟩
      · cases h
      · cases h
  · intro h
    cases cell with
    | none => exact ⟨none, rfl⟩
    | some text =>
      obtain ⟨data, f, hdata, hf⟩ := h text rfl
      exact ⟨some f, by simp only [filterAt, hdata, hf]⟩

/-- **A service that cannot be read gives a fault with a message,** unless its row holds a number without bound.
The filter is read before the place, so an infinite place counts only if the filter can be read. -/
theorem Service.exists_silent_ofRow_iff : (∃ fault, Service.ofRow row line = .error fault ∧ fault.IsSilent) ↔
    (Row.text? row "service_id").isSome ∧ row.IsUnbounded := by
  cases hid : Row.text? row "service_id" with
  | none =>
    refine iff_of_false ?_ (by simp)
    rintro ⟨fault, h, hsilent⟩
    unfold Service.ofRow at h
    rw [hid] at h
    obtain rfl := Except.error.inj h
    cases hsilent
  | some id =>
    unfold Service.ofRow
    rw [hid]
    dsimp only
    rw [ok_bind]
    constructor
    · rintro ⟨fault, h, hsilent⟩
      refine ⟨rfl, ?_⟩
      rcases bind_eq_error_iff.1 h with hfilter | ⟨filter, hfilter, h⟩
      · obtain ⟨text, data, htext, hdata, hfee⟩ := (exists_silent_filterAt_iff line id).1 ⟨fault, hfilter, hsilent⟩
        exact .fee htext hdata hfee
      · -- The filter can be read, so it is the place that cannot.
        have horder := (bind_eq_error_iff.1 h).resolve_right fun ⟨_, _, h⟩ => by cases h
        obtain ⟨-, s, hs⟩ := orderAt_eq_error_iff.1 horder
        exact .place ((exists_filterAt_eq_ok_iff line id).1 ⟨filter, hfilter⟩) hs
    · rintro ⟨-, hunbounded⟩
      cases hunbounded with
      | fee htext hdata hfee =>
        obtain ⟨fault, hfilter, hsilent⟩ :=
          (exists_silent_filterAt_iff line id).2 ⟨_, _, htext, hdata, hfee⟩
        exact ⟨fault, bind_eq_error_iff.2 (.inl hfilter), hsilent⟩
      | place hfilter hs =>
        obtain ⟨filter, hfilter⟩ := (exists_filterAt_eq_ok_iff line id).2 hfilter
        have horder := orderAt_eq_error_iff.2 ⟨rfl, _, hs⟩
        exact ⟨.unbounded, bind_eq_error_iff.2 (.inr ⟨filter, hfilter, bind_eq_error_iff.2 (.inl horder)⟩), rfl⟩

end

/-! ### Files -/

namespace CatalogFile

/-- A file is there, in UTF-8, and holds a table. -/
def Holds (f : CatalogFile) (table : Csv.Table) : Prop :=
  ∃ bytes text, f.content = some bytes ∧ String.fromUTF8? bytes = some text ∧ Csv.parse? text = some table

/-- A file that is read as a table gives a fault without a message just if two of its columns have one name. -/
theorem exists_silent_table_iff {f : CatalogFile} (required : String) :
    (∃ fault, f.table required = .error fault ∧ fault.IsSilent) ↔
      ∃ table, f.Holds table ∧ ¬ table.columns.Nodup := by
  constructor
  · rintro ⟨fault, h, hsilent⟩
    unfold table at h
    split at h
    · obtain rfl := Except.error.inj h
      cases hsilent
    · rename_i bytes hbytes
      split at h
      · obtain rfl := Except.error.inj h
        cases hsilent
      · rename_i table htable
        obtain ⟨text, htext, hparse⟩ := Option.bind_eq_some_iff.1 htable
        split at h
        · rename_i hsame
          exact ⟨table, ⟨bytes, text, hbytes, htext, hparse⟩, hsame⟩
        · split at h
          · cases h
          · obtain rfl := Except.error.inj h
            cases hsilent
  · rintro ⟨table, ⟨bytes, text, hbytes, htext, hparse⟩, hsame⟩
    refine ⟨.ambiguousColumn, ?_, rfl⟩
    have htable : (String.fromUTF8? bytes).bind Csv.parse? = some table := by rw [htext]; exact hparse
    simp only [CatalogFile.table, hbytes, htable, if_pos hsame]

end CatalogFile

/-! ### Both files -/

namespace CatalogFiles

variable {files : CatalogFiles}

/-- What keeps files from being loaded is one of the things that no message goes with. -/
inductive Escapes (files : CatalogFiles) : Prop where
  /-- Two columns of the rule catalog have one name but for white space. -/
  | ruleColumns {table : Csv.Table} (htable : files.rules.Holds table) (h : ¬ table.columns.Nodup)
  /-- The rules can be loaded, but two columns of the service catalog have one name but for white space. -/
  | serviceColumns {rules : List Rule} {table : Csv.Table} (hrules : files.loadRules = .ok rules)
      (htable : files.services.Holds table) (h : ¬ table.columns.Nodup)
  /-- The rules can be loaded, and so can the services up to one whose row holds a number without bound. -/
  | unbounded {rules : List Rule} {table : Csv.Table} {k : Nat} {row : Row} (hrules : files.loadRules = .ok rules)
      (htable : files.services.table "service_id" = .ok table) (hrow : table.rows[k]? = some row)
      (hbefore : ∀ j < k, ∀ earlier, table.rows[j]? = some earlier →
        earlier.Passes "service_id" Service.ofRow (2 + j))
      (hid : (Row.text? row "service_id").isSome) (h : row.IsUnbounded)

/-- Loading rules gives no other fault without a message: no cell of a rule has one. -/
theorem exists_silent_loadRules_iff : (∃ fault, files.loadRules = .error fault ∧ fault.IsSilent) ↔
    ∃ table, files.rules.Holds table ∧ ¬ table.columns.Nodup := by
  rw [← CatalogFile.exists_silent_table_iff "rule_id"]
  constructor
  · rintro ⟨fault, h, hsilent⟩
    rcases bind_eq_error_iff.1 h with htable | ⟨table, -, h⟩
    · exact ⟨fault, htable, hsilent⟩
    · obtain ⟨k, ⟨row, -, -, hrow⟩, -⟩ := readRows_eq_error_iff.1 h
      exact absurd hsilent (Rule.not_isSilent_of_ofRow hrow)
  · rintro ⟨fault, h, hsilent⟩
    exact ⟨fault, bind_eq_error_iff.2 (.inl h), hsilent⟩

/-- Loading services gives a fault without a message for columns of one name, or for the first row that is an
obstacle if that one holds a number without bound. -/
theorem exists_silent_loadServices_iff : (∃ fault, files.loadServices = .error fault ∧ fault.IsSilent) ↔
    (∃ table, files.services.Holds table ∧ ¬ table.columns.Nodup) ∨
      ∃ table k row, files.services.table "service_id" = .ok table ∧ table.rows[k]? = some row ∧
        (∀ j < k, ∀ earlier : Row, table.rows[j]? = some earlier →
          earlier.Passes "service_id" Service.ofRow (2 + j)) ∧
          (Row.text? row "service_id").isSome ∧ row.IsUnbounded := by
  rw [← CatalogFile.exists_silent_table_iff "service_id"]
  constructor
  · rintro ⟨fault, h, hsilent⟩
    rcases bind_eq_error_iff.1 h with htable | ⟨table, htable, h⟩
    · exact .inl ⟨fault, htable, hsilent⟩
    · have hrows := (bind_eq_error_iff.1 h).resolve_right fun ⟨_, _, h⟩ => by cases h
      obtain ⟨k, ⟨row, hrow, -, hfault⟩, hbefore⟩ := readRows_eq_error_iff.1 hrows
      obtain ⟨hid, hunbounded⟩ := Service.exists_silent_ofRow_iff.1 ⟨fault, hfault, hsilent⟩
      exact .inr ⟨table, k, row, htable, hrow, hbefore, hid, hunbounded⟩
  · rintro (⟨fault, h, hsilent⟩ | ⟨table, k, row, htable, hrow, hbefore, hid, hunbounded⟩)
    · exact ⟨fault, bind_eq_error_iff.2 (.inl h), hsilent⟩
    · obtain ⟨fault, hfault, hsilent⟩ := Service.exists_silent_ofRow_iff.2 ⟨hid, hunbounded⟩
      have hrows := readRows_eq_error_iff.2 ⟨k, ⟨row, hrow, Row.isEmpty_cell_of_text? hid, hfault⟩, hbefore⟩
      exact ⟨fault, bind_eq_error_iff.2 (.inr ⟨table, htable, bind_eq_error_iff.2 (.inl hrows)⟩), hsilent⟩

/-- **Files give a fault without a message just if one of the three is wrong first.** The rules are loaded
before the services, so a fault in them that has a message hides what is wrong further on. -/
theorem exists_silent_load_iff : (∃ fault, files.load = .error fault ∧ fault.IsSilent) ↔ files.Escapes := by
  constructor
  · rintro ⟨fault, h, hsilent⟩
    rcases bind_eq_error_iff.1 h with hrules | ⟨rules, hrules, h⟩
    · obtain ⟨table, htable, hsame⟩ := exists_silent_loadRules_iff.1 ⟨fault, hrules, hsilent⟩
      exact .ruleColumns htable hsame
    · have hservices := (bind_eq_error_iff.1 h).resolve_right fun ⟨_, _, h⟩ => by cases h
      rcases exists_silent_loadServices_iff.1 ⟨fault, hservices, hsilent⟩ with
        ⟨table, htable, hsame⟩ | ⟨table, k, row, htable, hrow, hbefore, hid, hunbounded⟩
      · exact .serviceColumns hrules htable hsame
      · exact .unbounded hrules htable hrow hbefore hid hunbounded
  · have hlast {rules : List Rule} (hrules : files.loadRules = .ok rules)
        (hservices : ∃ fault, files.loadServices = .error fault ∧ fault.IsSilent) :
        ∃ fault, files.load = .error fault ∧ fault.IsSilent := by
      obtain ⟨fault, hfault, hsilent⟩ := hservices
      exact ⟨fault, bind_eq_error_iff.2 (.inr ⟨rules, hrules, bind_eq_error_iff.2 (.inl hfault)⟩), hsilent⟩
    intro h
    cases h with
    | ruleColumns htable hsame =>
      obtain ⟨fault, hfault, hsilent⟩ := exists_silent_loadRules_iff.2 ⟨_, htable, hsame⟩
      exact ⟨fault, bind_eq_error_iff.2 (.inl hfault), hsilent⟩
    | serviceColumns hrules htable hsame =>
      exact hlast hrules (exists_silent_loadServices_iff.2 (.inl ⟨_, htable, hsame⟩))
    | unbounded hrules htable hrow hbefore hid hunbounded =>
      exact hlast hrules
        (exists_silent_loadServices_iff.2 (.inr ⟨_, _, _, htable, hrow, hbefore, hid, hunbounded⟩))

/-- What a client who asks for a reload is told: that it has been done, or why it cannot be done. -/
def IsTold (response : Web.Response) : Prop :=
  response.success?.isSome ∨ ∃ message, response = .detail 500 (.text message)

/-- If the files can be loaded, the client is told that it has been done. -/
theorem isTold_reload_of_load {o : Office} {b : Book} (hbook : o.book = some b) {c : Catalog}
    (h : o.files.load = .ok c) : IsTold (Web.reload o).2 := by
  left
  simp only [Web.reload, Office.act, hbook, Book.reload_of_load h]
  rfl

/-- If they cannot, the client is told why just if the fault has a message. -/
theorem isTold_reload_of_fault {o : Office} {b : Book} (hbook : o.book = some b) {fault : LoadFault}
    (h : o.files.load = .error fault) : IsTold (Web.reload o).2 ↔ ¬ fault.IsSilent := by
  simp only [Web.reload, Office.act, hbook, Book.reload_of_fault h, LoadFault.IsSilent]
  cases fault.message? with
  | none =>
    have hbroken : ¬ IsTold .broken := by
      rintro (h | ⟨message, h⟩)
      · cases h
      · cases h
    exact iff_of_false hbroken (by simp)
  | some message => exact iff_of_true (.inr ⟨message, rfl⟩) (Option.some_ne_none message)

/-- **Whatever the files hold, they are loaded or there is a message why not,** unless what is wrong first is one of
the three things that no message goes with. The same holds of what a client is told who asks for a reload. -/
theorem load_or_message_iff (files : CatalogFiles) (directory : String) (terms : Terms) (b : Book) :
    (((∃ c, files.load = .ok c) ∨ ∃ fault message, files.load = .error fault ∧ fault.message? = some message) ↔
      ¬ files.Escapes) ∧
    (IsTold (Web.respond ⟨directory, files, terms, some b⟩ (Web.post "/api/rules/reload" none)).2 ↔
      ¬ files.Escapes) := by
  rw [Web.respond_reload rfl, ← exists_silent_load_iff]
  cases h : files.load with
  | ok c =>
    have hloaded : ¬ ∃ fault, (Except.ok c : Except LoadFault Catalog) = .error fault ∧ fault.IsSilent := by
      rintro ⟨_, ⟨⟩, -⟩
    exact ⟨iff_of_true (.inl ⟨c, rfl⟩) hloaded, iff_of_true (isTold_reload_of_load rfl h) hloaded⟩
  | error fault =>
    have hsilent : (∃ f, (Except.error fault : Except LoadFault Catalog) = .error f ∧ f.IsSilent) ↔
        fault.IsSilent :=
      ⟨fun ⟨f, hf, hsilent⟩ => Except.error.inj hf ▸ hsilent, fun h => ⟨fault, rfl, h⟩⟩
    have hmessage : (∃ message, fault.message? = some message) ↔ ¬ fault.IsSilent := by
      rw [LoadFault.IsSilent, ← Option.isSome_iff_exists, Option.isSome_iff_ne_none]
    rw [hsilent]
    refine ⟨?_, isTold_reload_of_fault rfl h⟩
    rw [← hmessage]
    constructor
    · rintro (⟨_, ⟨⟩⟩ | ⟨f, message, hf, hmessage⟩)
      exact ⟨message, Except.error.inj hf ▸ hmessage⟩
    · rintro ⟨message, hmessage⟩
      exact .inr ⟨fault, message, rfl, hmessage⟩

/-- Files with a service whose place is infinite. -/
def endlessFiles : CatalogFiles where
  rules := ⟨"pricing_rules.csv", "data/pricing_rules.csv", some "rule_id\nrent\n".toUTF8⟩
  services := ⟨"services.csv", "data/services.csv", some "service_id,service_order\ndesk,inf\n".toUTF8⟩

/-- **Not all files are loaded or give a fault with a message.** -/
theorem not_forall_load_or_message : ¬ ∀ files : CatalogFiles,
    (∃ c, files.load = .ok c) ∨ ∃ fault message, files.load = .error fault ∧ fault.message? = some message := by
  intro hall
  have hsilent : (failure? endlessFiles.load).map LoadFault.message? = some none := by decide +kernel
  rcases hall endlessFiles with ⟨c, hc⟩ | ⟨fault, message, hfault, hmessage⟩
  · rw [hc] at hsilent
    cases hsilent
  · rw [failure?_eq_some_iff.2 hfault, Option.map_some, hmessage] at hsilent
    cases hsilent

end CatalogFiles
end Tariff
