/-
# What is loaded

Each service of a loaded catalog was read from a row of its file (`exists_row_of_loadServices`), so what holds of
every row that can be read holds throughout a loaded catalog.

The place of a service is the whole part of a binary64, or `999`. So it has at most 309 digits, far less than a
text of a whole number may have, and taking the fingerprint of a loaded catalog never fails
(`fingerprint?_of_load`). Of other catalogs it may.
-/

import Mathlib.Data.List.Forall2
import Tariff.Catalog.Fingerprint
import Tariff.Catalog.Load
import Tariff.Proofs.Number.ReadBack
import Tariff.Proofs.Outcome

namespace Tariff

attribute [local instance (high)] instPowNat

open Csv (Row)

/-! ### Rows -/

section

variable {α : Type} {column : String} {read : Row → Nat → Except LoadFault α} {line : Nat} {rows : List Row}

/-- **What is read from rows is read from each row with something in the column,** one after the other. Rows
without it are passed over, and so they take no place in the result. -/
theorem forall₂_of_readRows {xs : List α} (h : readRows column read line rows = .ok xs) :
    List.Forall₂ (fun row x => ∃ n, read row n = .ok x)
      (rows.filter fun row => !(Row.cell row column).isEmpty) xs := by
  induction rows generalizing line xs with
  | nil =>
    obtain rfl := Except.ok.inj h
    exact .nil
  | cons row rows ih =>
    rw [readRows] at h
    split at h
    · rename_i hempty
      rw [List.filter_cons_of_neg (by simp [hempty])]
      exact ih h
    · rename_i hnamed
      obtain ⟨y, hy, h⟩ := bind_eq_ok_iff.1 h
      obtain ⟨ys, hys, h⟩ := bind_eq_ok_iff.1 h
      obtain rfl := Except.ok.inj h
      rw [List.filter_cons_of_pos (by simp [hnamed])]
      exact .cons ⟨line, hy⟩ (ih hys)

/-- What was read of rows was each read of one of them. -/
theorem exists_row_of_readRows {xs : List α} (h : readRows column read line rows = .ok xs) {x : α} (hx : x ∈ xs) :
    ∃ row n, read row n = .ok x := by
  have hrows := forall₂_of_readRows h
  clear h
  generalize rows.filter _ = named at hrows
  induction hrows with
  | nil => cases hx
  | @cons row y named ys hread _ ih =>
    rcases List.mem_cons.1 hx with rfl | hx
    · exact ⟨row, hread⟩
    · exact ih hx

/-- A row is no obstacle: it has nothing in the column, or it can be read. -/
def Csv.Row.Passes (row : Row) (column : String) (read : Row → Nat → Except LoadFault α) (n : Nat) : Prop :=
  (Row.cell row column).isEmpty ∨ ∃ x, read row n = .ok x

/-- Reading rows fails at the `k`-th of them, counted from zero: it has something in the column and cannot be read,
and no row before it is an obstacle. -/
structure FailsAt (column : String) (read : Row → Nat → Except LoadFault α) (line : Nat) (rows : List Row) (k : Nat)
    (fault : LoadFault) : Prop where
  row : ∃ row, rows[k]? = some row ∧ (Row.cell row column).isEmpty = false ∧ read row (line + k) = .error fault
  before : ∀ j < k, ∀ row, rows[j]? = some row → row.Passes column read (line + j)

/-- Reading fails at the first row if that one has something in the column and cannot be read. -/
theorem failsAt_cons_zero_iff {row : Row} {fault : LoadFault} : FailsAt column read line (row :: rows) 0 fault ↔
    (Row.cell row column).isEmpty = false ∧ read row line = .error fault := by
  constructor
  · rintro ⟨⟨_, ⟨⟩, hnamed, hfault⟩, -⟩
    exact ⟨hnamed, hfault⟩
  · rintro ⟨hnamed, hfault⟩
    exact ⟨⟨row, rfl, hnamed, hfault⟩, nofun⟩

/-- Reading fails further down if the first row is no obstacle and it fails among the others. -/
theorem failsAt_cons_succ_iff {row : Row} {k : Nat} {fault : LoadFault} :
    FailsAt column read line (row :: rows) (k + 1) fault ↔
      row.Passes column read line ∧ FailsAt column read (line + 1) rows k fault := by
  constructor
  · rintro ⟨⟨found, hfound, hfault⟩, hbefore⟩
    refine ⟨hbefore 0 (by omega) row rfl, ⟨found, hfound, ?_⟩, fun j hj earlier hearlier => ?_⟩
    · rwa [Nat.add_right_comm, Nat.add_assoc]
    · rw [Nat.add_right_comm, Nat.add_assoc]
      exact hbefore (j + 1) (by omega) earlier hearlier
  · rintro ⟨hpasses, ⟨found, hfound, hfault⟩, hbefore⟩
    refine ⟨⟨found, hfound, ?_⟩, fun j hj earlier hearlier => ?_⟩
    · rwa [Nat.add_right_comm, Nat.add_assoc] at hfault
    · cases j with
      | zero =>
        obtain rfl := Option.some.inj hearlier
        exact hpasses
      | succ j =>
        have := hbefore j (by omega) earlier hearlier
        rwa [Nat.add_right_comm, Nat.add_assoc] at this

/-- **Rows cannot be read just if reading fails at one of them.** That is the first one that has something in
the column and cannot be read, with the line it is counted at. -/
theorem readRows_eq_error_iff {fault : LoadFault} :
    readRows column read line rows = .error fault ↔ ∃ k, FailsAt column read line rows k fault := by
  induction rows generalizing line with
  | nil => exact ⟨nofun, fun ⟨k, ⟨_, hnone, _⟩, _⟩ => by cases hnone⟩
  | cons row rows ih =>
    rw [readRows]
    constructor
    · intro h
      split at h
      · rename_i hempty
        obtain ⟨k, hk⟩ := ih.1 h
        exact ⟨k + 1, failsAt_cons_succ_iff.2 ⟨.inl hempty, hk⟩⟩
      · rename_i hnamed
        rcases bind_eq_error_iff.1 h with hfault | ⟨x, hx, h⟩
        · exact ⟨0, failsAt_cons_zero_iff.2 ⟨Bool.not_eq_true _ ▸ hnamed, hfault⟩⟩
        · rcases bind_eq_error_iff.1 h with hfault | ⟨xs, -, h⟩
          · obtain ⟨k, hk⟩ := ih.1 hfault
            exact ⟨k + 1, failsAt_cons_succ_iff.2 ⟨.inr ⟨x, hx⟩, hk⟩⟩
          · cases h
    · rintro ⟨k, hk⟩
      cases k with
      | zero =>
        obtain ⟨hnamed, hfault⟩ := failsAt_cons_zero_iff.1 hk
        rw [if_neg (by simp [hnamed]), hfault]
        rfl
      | succ k =>
        -- The first row is passed over or read, and it fails among the others.
        obtain ⟨hpasses, hk⟩ := failsAt_cons_succ_iff.1 hk
        have hrest := ih.2 ⟨k, hk⟩
        split
        · exact hrest
        · rename_i hnamed
          obtain ⟨x, hx⟩ := hpasses.resolve_left hnamed
          rw [hx, ok_bind, hrest]
          rfl

end

/-! ### Rows that cannot be read -/

section

variable {row : Row} {line : Nat} {fault : LoadFault}

/-- A bound that cannot be read gives the fault it was handed. -/
theorem boundAt_eq_error {column : String} {f : LoadFault} (h : boundAt row f column = .error fault) : fault = f := by
  unfold boundAt at h
  split at h
  · cases h
  · exact (Except.error.inj h).symm

/-- A row gives no rule if it has no id, or something is wrong with one of its numbers. -/
theorem Rule.ofRow_eq_error (h : Rule.ofRow row line = .error fault) :
    fault = .noId line "rule_id" ∨ ∃ id, fault = .badNumber line id := by
  unfold Rule.ofRow at h
  dsimp only at h
  split at h
  · rename_i id _
    rw [ok_bind] at h
    rcases bind_eq_error_iff.1 h with hbound | ⟨_, -, h⟩
    · exact .inr ⟨id, boundAt_eq_error hbound⟩
    rcases bind_eq_error_iff.1 h with hbound | ⟨_, -, h⟩
    · exact .inr ⟨id, boundAt_eq_error hbound⟩
    rcases bind_eq_error_iff.1 h with hbound | ⟨_, -, h⟩
    · exact .inr ⟨id, boundAt_eq_error hbound⟩
    · cases h
  · exact .inl (Except.error.inj h).symm

/-- A filter that cannot be read gives a fault at its line, with a reason, or the one of a fee that is too
large. -/
theorem filterAt_eq_error {id : String} {cell : Option String} (h : filterAt line id cell = .error fault) :
    (∃ reason, fault = .badFilter line id reason) ∨ fault = .unbounded := by
  unfold filterAt at h
  split at h
  · cases h
  · split at h
    · exact .inl ⟨none, (Except.error.inj h).symm⟩
    · split at h
      · cases h
      · exact .inr (Except.error.inj h).symm
      · exact .inl ⟨_, (Except.error.inj h).symm⟩

/-- A place cannot be read just if it is infinite; anything else gives a whole number, or the place of none. -/
theorem orderAt_eq_error_iff {cell : String} : orderAt cell = .error fault ↔
    fault = .unbounded ∧ ∃ s, Binary64.parse? cell = some (.infinite s) := by
  have hblank : Binary64.parse? "" = none := by decide
  unfold orderAt
  constructor
  · intro h
    split at h
    · rename_i s hs
      split at hs
      · cases hs
      · exact ⟨(Except.error.inj h).symm, s, hs⟩
    · cases h
    · cases h
  · rintro ⟨rfl, s, hs⟩
    have hne : cell.isEmpty = false := by
      rw [← Bool.not_eq_true, String.isEmpty_iff]
      rintro rfl
      rw [hblank] at hs
      cases hs
    simp only [hne, hs]
    rfl

/-- A row gives no service if it has no id, something is wrong with its filter, or a number in it has no bound. -/
theorem Service.ofRow_eq_error (h : Service.ofRow row line = .error fault) :
    fault = .noId line "service_id" ∨ (∃ id reason, fault = .badFilter line id reason) ∨ fault = .unbounded := by
  unfold Service.ofRow at h
  dsimp only at h
  split at h
  · rename_i id _
    rw [ok_bind] at h
    rcases bind_eq_error_iff.1 h with hfilter | ⟨_, -, h⟩
    · exact .inr ((filterAt_eq_error hfilter).imp_left fun h => ⟨id, h⟩)
    · have horder := (bind_eq_error_iff.1 h).resolve_right fun ⟨_, _, h⟩ => by cases h
      exact .inr (.inr (orderAt_eq_error_iff.1 horder).1)
  · exact .inl (Except.error.inj h).symm

end

/-! ### Files -/

namespace CatalogFiles

variable {files : CatalogFiles}

/-- **Every service of a loaded catalog was read from a row of its file.** -/
theorem exists_row_of_loadServices {services : List Service} (h : files.loadServices = .ok services) {s : Service}
    (hs : s ∈ services) : ∃ row n, Service.ofRow row n = .ok s := by
  obtain ⟨table, -, h⟩ := bind_eq_ok_iff.1 h
  obtain ⟨unsorted, hread, h⟩ := bind_eq_ok_iff.1 h
  obtain rfl := Except.ok.inj h
  exact exists_row_of_readRows hread (List.mem_mergeSort.1 hs)

/-- Files are loaded just if their rules and their services are. -/
theorem load_eq_ok_iff {c : Catalog} :
    files.load = .ok c ↔ files.loadRules = .ok c.rules ∧ files.loadServices = .ok c.services := by
  unfold load
  rw [bind_eq_ok_iff]
  constructor
  · rintro ⟨rules, hrules, h⟩
    obtain ⟨services, hservices, h⟩ := bind_eq_ok_iff.1 h
    obtain rfl := Except.ok.inj h
    exact ⟨hrules, hservices⟩
  · rintro ⟨hrules, hservices⟩
    exact ⟨c.rules, hrules, bind_eq_ok_iff.2 ⟨c.services, hservices, rfl⟩⟩

end CatalogFiles

/-! ### The places of services -/

/-- The whole part of a binary64 has at most 309 digits. -/
theorem Binary64.natAbs_truncate?_lt {x : Binary64} {z : Int} (h : x.truncate? = some z) :
    z.natAbs < 10 ^ (309 : Nat) := by
  cases x with
  | finite s m =>
    obtain rfl := Option.some.inj h
    have hunits : (signedUnits s m).natAbs = m.units := by
      cases s <;> simp [signedUnits]
    rw [Int.natAbs_tdiv, hunits, Int.natAbs_natCast]
    refine Nat.div_lt_of_lt_mul (Nat.lt_of_lt_of_le m.units_lt ?_)
    unfold Magnitude.limit unitsPerOne
    decide +kernel
  | infinite s => cases h
  | nan => cases h

/-- A place has at most 309 digits, so it can be written. -/
theorem digitCount_orderAt {cell : String} {order : Int} (h : orderAt cell = .ok order) :
    digitCount order.natAbs ≤ 309 := by
  have hdefault : digitCount (999 : Int).natAbs ≤ 309 := by decide +kernel
  unfold orderAt at h
  split at h
  · cases h
  · rename_i x _ _
    obtain rfl := Except.ok.inj h
    cases hwhole : x.truncate? with
    | none => exact hdefault
    | some z => exact (digitCount_le_iff (k := 309) (by decide) _).2 (Binary64.natAbs_truncate?_lt hwhole)
  · obtain rfl := Except.ok.inj h
    exact hdefault

/-- The place of a service is that of its cell. -/
theorem orderAt_of_ofRow {row : Row} {line : Nat} {s : Service} (h : Service.ofRow row line = .ok s) :
    orderAt (Row.cell row "service_order") = .ok s.order := by
  unfold Service.ofRow at h
  dsimp only at h
  split at h
  · obtain ⟨id, -, h⟩ := bind_eq_ok_iff.1 h
    obtain ⟨filter, -, h⟩ := bind_eq_ok_iff.1 h
    obtain ⟨order, horder, h⟩ := bind_eq_ok_iff.1 h
    obtain rfl := Except.ok.inj h
    exact horder
  · cases h

/-- **A loaded catalog has a fingerprint.** Writing it would fail only for a place of too many digits, and the
places of a loaded catalog come from binary64 numbers. -/
theorem CatalogFiles.fingerprint?_of_load {files : CatalogFiles} {c : Catalog} (h : files.load = .ok c) :
    c.fingerprint? = some c.fingerprint := by
  refine if_pos (List.all_eq_true.2 fun s hs => decide_eq_true ?_)
  obtain ⟨row, n, hrow⟩ := exists_row_of_loadServices (load_eq_ok_iff.1 h).2 hs
  exact Nat.le_trans (digitCount_orderAt (orderAt_of_ofRow hrow)) (by decide)

end Tariff
