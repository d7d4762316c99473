/-
# Reloading is atomic

Catalogs are put into a book in steps, the fingerprint last, so a step that failed would leave new catalogs under
an old fingerprint. None does: once both files are read, the fingerprint can be taken, and until then nothing is
written. So a reload is all or nothing (`Book.reload_of_load`, `Book.reload_of_fault`).

What an action can do in an office is said once (`Office.Does`). From there it follows that in an office that was
opened and reloaded in any order, its files rewritten in between, the book is that of the last load that succeeded
(`Office.reload_atomic`).

| action | book | reply |
| --- | --- | --- |
| open or reload, files that can be loaded | of those files | that book |
| open or reload, other files | as before | the fault |
| write | as before | |
| quote | as before | a quote with the fingerprint of the book, or why there is none |
-/

import Mathlib.Data.List.Induction
import Tariff.Book
import Tariff.Proofs.Catalog.Loading

namespace Tariff

namespace Book

variable {files : CatalogFiles} {c : Catalog}

/-- **A reload of files that can be loaded gives their book.** It is put together before it takes the place of
the old one, so there is no time with half of each. -/
theorem reload_of_load (h : files.load = .ok c) (b : Book) :
    b.reload files = (.ok (), ⟨c, c.fingerprint⟩) := by
  simp only [reload, h, setCatalogs, CatalogFiles.fingerprint?_of_load h]

/-- **A reload of other files leaves the book as it is.** The fault is given as the answer, and quotes go on
from the old book. -/
theorem reload_of_fault {fault : LoadFault} (h : files.load = .error fault) (b : Book) :
    b.reload files = (.error fault, b) := by
  simp only [reload, h]

/-- Files that can be loaded give a book with the fingerprint of their catalog: taking it does not fail, since
no place has too many digits. -/
theorem open?_of_load (h : files.load = .ok c) : open? files = .ok ⟨c, c.fingerprint⟩ := by
  simp only [open?, reload_of_load h]

/-- Files that cannot be loaded give no book, and the fault of loading. -/
theorem open?_of_fault {fault : LoadFault} (h : files.load = .error fault) : open? files = .error fault := by
  simp only [open?, reload_of_fault h]

end Book

namespace Office

variable {o : Office} {a : Action}

/-- What an action does in an office: the office afterwards and the reply. -/
inductive Does (o : Office) : Action → Office → Reply → Prop where
  | loaded {a : Action} {c : Catalog} (ha : a = .openBook ∨ a = .reload) (h : o.files.load = .ok c) :
      Does o a { o with book := some ⟨c, c.fingerprint⟩ } (.loaded ⟨c, c.fingerprint⟩)
  | fault {a : Action} {fault : LoadFault} (h : o.files.load = .error fault) : Does o a o (.fault fault)
  | written (kind : CatalogKind) (content : Option ByteArray) :
      Does o (.write kind content) (o.write kind content) .written
  | quoted {answers : Json} {selection : Selection} {b : Book} {q : Quote} (hbook : o.book = some b)
      (hquote : Quote.calculate b.catalog o.terms answers selection = .ok q) :
      Does o (.quote answers selection) o (.quoted q b.fingerprint)
  | halted {answers : Json} {selection : Selection} (h : Halt) : Does o (.quote answers selection) o (.halted h)
  | noBook {a : Action} (h : o.book = none) : Does o a o .noBook

/-- **All that an action can do.** -/
theorem does_act (o : Office) (a : Action) : o.Does a (o.act a).1 (o.act a).2 := by
  cases a with
  | openBook =>
    cases h : o.files.load with
    | ok c =>
      simp only [act, Book.open?_of_load h]
      exact .loaded (.inl rfl) h
    | error fault =>
      simp only [act, Book.open?_of_fault h]
      exact .fault h
  | reload =>
    cases hbook : o.book with
    | none =>
      simp only [act, hbook]
      exact .noBook hbook
    | some b =>
      cases h : o.files.load with
      | ok c =>
        simp only [act, hbook, Book.reload_of_load h]
        exact .loaded (.inr rfl) h
      | error fault =>
        -- The old book is put back, which leaves the office as it was.
        have hsame : { o with book := some b } = o := by rw [← hbook]
        simp only [act, hbook, Book.reload_of_fault h, hsame]
        exact .fault h
  | write kind content => exact .written kind content
  | quote answers selection =>
    cases hbook : o.book with
    | none =>
      simp only [act, hbook]
      exact .noBook hbook
    | some b =>
      cases hquote : Quote.calculate b.catalog o.terms answers selection with
      | ok q =>
        have hquoted : b.quote o.terms answers selection = .ok (q, b.fingerprint) := by
          rw [Book.quote, hquote]
          rfl
        simp only [act, hbook, hquoted]
        exact .quoted hbook hquote
      | error h =>
        have hhalted : b.quote o.terms answers selection = .error h := by
          rw [Book.quote, hquote]
          rfl
        simp only [act, hbook, hhalted]
        exact .halted h

/-! ### One action -/

/-- An action that says it has loaded a book has put it into the office, and with it the catalog of the files
and its fingerprint. -/
theorem loaded_of_act {b : Book} (h : (o.act a).2 = .loaded b) :
    (o.act a).1.book = some b ∧ o.files.load = .ok b.catalog ∧ b.catalog.fingerprint? = some b.fingerprint := by
  have hdoes := o.does_act a
  rw [h] at hdoes
  generalize (o.act a).1 = next at hdoes ⊢
  cases hdoes with
  | loaded _ hload => exact ⟨rfl, hload, CatalogFiles.fingerprint?_of_load hload⟩

/-- A load that fails changes nothing. -/
theorem fault_of_act {fault : LoadFault} (h : (o.act a).2 = .fault fault) :
    o.files.load = .error fault ∧ (o.act a).1 = o := by
  have hdoes := o.does_act a
  rw [h] at hdoes
  generalize (o.act a).1 = next at hdoes ⊢
  cases hdoes with
  | fault hload => exact ⟨hload, rfl⟩

/-- A quote is calculated on the book that is there, and names the fingerprint of that one. -/
theorem quoted_of_act {answers : Json} {selection : Selection} {q : Quote} {fingerprint : String}
    (h : (o.act (.quote answers selection)).2 = .quoted q fingerprint) :
    ∃ b, o.book = some b ∧ Quote.calculate b.catalog o.terms answers selection = .ok q ∧
      fingerprint = b.fingerprint := by
  have hdoes := o.does_act (.quote answers selection)
  rw [h] at hdoes
  generalize (o.act (.quote answers selection)).1 = next at hdoes
  cases hdoes with
  | quoted hbook hquote => exact ⟨_, hbook, hquote, rfl⟩

/-- Only a load that succeeds changes the book. -/
theorem book_of_ne_loaded (h : ∀ b, (o.act a).2 ≠ .loaded b) : (o.act a).1.book = o.book := by
  have hdoes := o.does_act a
  generalize (o.act a).1 = next at hdoes ⊢
  generalize (o.act a).2 = reply at hdoes h
  cases hdoes with
  | loaded => exact absurd rfl (h _)
  | written kind => cases kind <;> rfl
  | _ => rfl

/-! ### Several actions -/

theorem run_append (o : Office) (xs ys : List Action) : o.run (xs ++ ys) = (o.run xs).run ys :=
  List.foldl_append

theorem run_concat (o : Office) (xs : List Action) (a : Action) : o.run (xs ++ [a]) = ((o.run xs).act a).1 :=
  o.run_append xs [a]

/-- No action of a list loads catalogs. -/
def LoadsNothing (o : Office) (actions : List Action) : Prop :=
  ∀ before a after, actions = before ++ a :: after → ∀ b, ((o.run before).act a).2 ≠ .loaded b

theorem loadsNothing_nil (o : Office) : o.LoadsNothing [] := by
  intro before a after h
  cases before <;> cases h

/-- One more action that loads nothing leaves it at that. -/
theorem LoadsNothing.concat {actions : List Action} (h : o.LoadsNothing actions)
    (ha : ∀ b, ((o.run actions).act a).2 ≠ .loaded b) : o.LoadsNothing (actions ++ [a]) := by
  intro before next after hsplit
  rcases List.eq_nil_or_concat after with rfl | ⟨after, last, rfl⟩
  · obtain ⟨rfl, hlast⟩ := List.append_inj' hsplit rfl
    obtain rfl := (List.cons.inj hlast).1
    exact ha
  · rw [List.concat_eq_append, ← List.cons_append, ← List.append_assoc] at hsplit
    exact h before next after (List.append_inj' hsplit rfl).1

/-- **The book is that of the last load that succeeded,** if there was none in the beginning. By induction on
the actions from the back, since only a load that succeeds changes the book. -/
theorem exists_last_load (hnew : o.book = none) (actions : List Action) {b : Book}
    (h : (o.run actions).book = some b) :
    b.catalog.fingerprint? = some b.fingerprint ∧
      ∃ earlier a later, actions = earlier ++ a :: later ∧ ((o.run earlier).act a).2 = .loaded b ∧
        (o.run earlier).files.load = .ok b.catalog ∧ (o.run (earlier ++ [a])).LoadsNothing later := by
  induction actions using List.reverseRecOn with
  | nil => exact absurd (hnew.symm.trans h) nofun
  | append_singleton actions last ih =>
    rw [run_concat] at h
    by_cases hloaded : ∃ b', ((o.run actions).act last).2 = .loaded b'
    · obtain ⟨b', hreply⟩ := hloaded
      obtain ⟨hbook, hload, hfingerprint⟩ := loaded_of_act hreply
      obtain rfl : b' = b := Option.some.inj (hbook.symm.trans h)
      exact ⟨hfingerprint, actions, last, [], rfl, hreply, hload, loadsNothing_nil _⟩
    · have hkept : ∀ b', ((o.run actions).act last).2 ≠ .loaded b' := fun b' heq => hloaded ⟨b', heq⟩
      rw [book_of_ne_loaded hkept] at h
      obtain ⟨hfingerprint, earlier, a, later, rfl, hreply, hload, hlater⟩ := ih h
      refine ⟨hfingerprint, earlier, a, later ++ [last], by simp, hreply, hload, hlater.concat ?_⟩
      rwa [← run_append, List.append_assoc, List.singleton_append]

/-- **Reloading is atomic.** In an office without a book let files be loaded, rewritten and priced by in any order.
If there is a book then, it is that of the last load that succeeded: its rules and its services were loaded from the
files as they were at that moment, no later action loaded any, and its fingerprint is that of its catalogs. A load
that fails leaves the office as it is, whatever the fault, and it is the files that cannot be loaded. A quote carries
the fingerprint of the catalogs that it was priced by. -/
theorem reload_atomic (hnew : o.book = none) (actions : List Action) :
    (∀ b, (o.run actions).book = some b →
      b.catalog.fingerprint? = some b.fingerprint ∧
        ∃ earlier a later, actions = earlier ++ a :: later ∧ ((o.run earlier).act a).2 = .loaded b ∧
          (o.run earlier).files.load = .ok b.catalog ∧ (o.run (earlier ++ [a])).LoadsNothing later) ∧
    (∀ a fault, ((o.run actions).act a).2 = .fault fault →
      (o.run actions).files.load = .error fault ∧ ((o.run actions).act a).1 = o.run actions) ∧
    ∀ answers selection q fingerprint,
      ((o.run actions).act (.quote answers selection)).2 = .quoted q fingerprint →
        ∃ b, (o.run actions).book = some b ∧
          Quote.calculate b.catalog (o.run actions).terms answers selection = .ok q ∧
          b.catalog.fingerprint? = some fingerprint := by
  refine ⟨fun b hb => exists_last_load hnew actions hb, fun a fault h => fault_of_act h, ?_⟩
  intro answers selection q fingerprint h
  obtain ⟨b, hb, hquote, rfl⟩ := quoted_of_act h
  exact ⟨b, hb, hquote, (exists_last_load hnew actions hb).1⟩

/-- An office with one rule and one service in its files. -/
def deskOffice : Office :=
  .ofFiles "data" "data/pricing_rules.csv" "data/services.csv" {} (some "rule_id\nrent\n".toUTF8)
    (some "service_id\ndesk\n".toUTF8)

/-- The files are loaded; then the rules are written anew, and the services so that they cannot be loaded. -/
def mishap : List Action :=
  [.openBook, .write .rules (some "rule_id\nlease\n".toUTF8),
    .write .services (some "service_id,service_order\ndesk,inf\n".toUTF8)]

/-- An office whose files are lost goes on with the book it has, after a failed reload as before. -/
theorem reload_atomic_deskOffice :
    ∃ b fault, (deskOffice.run mishap).book = some b ∧ b.catalog.rules.map Rule.id = ["rent"] ∧
      b.catalog.fingerprint? = some b.fingerprint ∧
      ((deskOffice.run mishap).act .reload).2 = .fault fault ∧
      ((deskOffice.run mishap).act .reload).1 = deskOffice.run mishap := by
  have hrules : (deskOffice.run mishap).book.map (fun b => b.catalog.rules.map Rule.id) = some ["rent"] := by
    decide +kernel
  have hfiles : (deskOffice.run mishap).files.load.toOption.isNone := by decide +kernel
  obtain ⟨b, hb, hrent⟩ := Option.map_eq_some_iff.1 hrules
  cases hload : (deskOffice.run mishap).files.load with
  | ok c => simp [hload, Except.toOption] at hfiles
  | error fault =>
    have hreply : ((deskOffice.run mishap).act .reload).2 = .fault fault := by
      simp only [act, hb, Book.reload_of_fault hload]
    obtain ⟨hlast, hfault, -⟩ := reload_atomic (o := deskOffice) rfl mishap
    exact ⟨b, fault, hb, hrent, (hlast b hb).1, hreply, (hfault .reload fault hreply).2⟩

end Office
end Tariff
