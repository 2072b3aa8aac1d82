import Tabular.Proofs.Catalogs
import Tabular.Proofs.Edits

/-! Tables as edits make them. A table starts without rows; insertions, updates and deletions follow
one another, and refused ones may be among them. Every such table is well formed. A fault would end
the history of a table, because an update that faults may have written some of its rows. -/

namespace Tabular

/-- The row has one value for each column of the schema, and the column admits it. -/
def Schema.Admits (s : Schema) (values : List Value) : Prop :=
  List.Forall₂ (fun c v => c.type.admits v = true) s.columns values

instance (s : Schema) (values : List Value) : Decidable (s.Admits values) :=
  inferInstanceAs (Decidable (List.Forall₂ _ s.columns values))

namespace Table

variable {t : Table}

/-- The table is what insertions, updates and deletions make of a new table. An edit may fail with
an error, which leaves the table as it was, but none of them faults. -/
inductive Built : Table → Prop
  | create (name : String) (schema : Schema) : Built (.create name schema)
  | insert {t : Table} (h : Built t) (values : List Value) :
      Built ((Edit.insert values).run.run t).2
  | update {t : Table} (h : Built t) (updates : List (Nat × List Value))
      (hfault : NoFault ((Edit.update updates).run.run t).1) :
      Built ((Edit.update updates).run.run t).2
  | delete {t : Table} (h : Built t) (positions : List Nat) :
      Built ((Edit.delete positions).run.run t).2

/-- Updates at any positions keep a table well formed, unless they fault. -/
theorem Edit.wellFormed_update {updates : List (Nat × List Value)} (h : t.WellFormed)
    (hfault : NoFault ((update updates).run.run t).1) :
    ((update updates).run.run t).2.WellFormed := by
  by_cases hpos : t.Reaches updates
  · exact (sound_update h hpos).holds.wellFormed
  · by_cases ha : t.Accepts updates
    · obtain ⟨after, hrun⟩ := run_update_outside h hpos ha
      rw [hrun] at hfault
      exact absurd rfl (hfault .outOfRange)
    · obtain ⟨e, hrun⟩ := run_update_refused h ha
      rw [hrun]
      exact h

theorem Built.wellFormed (h : t.Built) : t.WellFormed := by
  induction h with
  | create name schema => exact wellFormed_create name schema
  | insert _ values ih => exact (Edit.sound_insert ih values).holds.wellFormed
  | update _ updates hfault ih => exact Edit.wellFormed_update ih hfault
  | delete _ positions ih => exact (Edit.sound_delete ih positions).holds.wellFormed

/-- A number of their own and a short name. -/
def userSchema : Schema := ⟨[⟨"id", .int, some .primaryKey⟩, ⟨"name", .varchar 3, none⟩]⟩

/-- Three users. A fourth one was refused for the number of the second. -/
def users : Table :=
  let rows : List (List Value) := [[.number 1, .string "Ann"], [.number 2, .string "Bob"],
    [.number 2, .string "Joe"], [.number 3, .string "Eve"]]
  rows.foldl (fun t values => ((Edit.insert values).run.run t).2) (create "users" userSchema)

theorem built_users : users.Built :=
  ((((Built.create "users" userSchema).insert _).insert _).insert _).insert _

end Table

end Tabular
