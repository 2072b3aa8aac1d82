import Tabular.Proofs.Ordering
import Tabular.Proofs.Reading

/-! What a `SELECT` statement gives. `Select.answer` computes it from the schema and the rows of a
table, and `Table.WellFormed.select_eq` says that a well-formed table answers so: how its rows are
stored plays no part. -/

namespace Tabular

variable {q : Select} {s : Schema} {t : Table} {rows found : List Row}
  {labels : List String} {result : ResultSet}

/-- The rows that satisfy a condition, in order. The first row on which the condition fails decides
the error. -/
def Row.among (condition : Option Expr) (rows : List Row) : Except Error (List Row) := do
  return (← Row.satisfying condition rows.zipIdx).map (·.1)

/-- What a `SELECT` statement gives on the rows of a table. -/
def Select.answer (q : Select) (s : Schema) (rows : List Row) : Except Error ResultSet := do
  let labels ← q.labels s
  let found ← Row.among q.condition rows
  return { labels, rows := ← q.present found }

theorem Table.WellFormed.select_eq (h : t.WellFormed) (q : Select) :
    t.select q = liftM (q.answer t.schema t.contents) := by
  unfold Table.select Select.answer Row.among Table.matching
  rw [h.rows_eq]
  cases q.labels t.schema with
  | error e => rfl
  | ok labels =>
    show ((liftM (Row.satisfying q.condition t.contents.zipIdx) : Except (Failure Error) _) >>= _) =
      liftM ((Row.satisfying q.condition t.contents.zipIdx >>= _) >>= _)
    cases Row.satisfying q.condition t.contents.zipIdx with
    | error e => rfl
    | ok found =>
      show ((liftM (q.present (found.map (·.1))) : Except (Failure Error) _) >>= _) =
        liftM (q.present (found.map (·.1)) >>= _)
      cases q.present (found.map (·.1)) <;> rfl

theorem Row.among_eq_ok_iff {condition : Option Expr} : Row.among condition rows = .ok found ↔
    (∀ r ∈ rows, ∃ b, r.satisfies condition = .ok b) ∧
      rows.filter (·.matches condition) = found := by
  have hmap : rows.zipIdx.map (·.1) = rows := List.zipIdx_map_fst 0 rows
  have hdecides : (∀ p ∈ rows.zipIdx, ∃ b, p.1.satisfies condition = .ok b) ↔
      ∀ r ∈ rows, ∃ b, r.satisfies condition = .ok b := by
    conv_rhs => rw [← hmap, List.forall_mem_map]
  have hfilter : (rows.zipIdx.filter (·.1.matches condition)).map (·.1) =
      rows.filter (·.matches condition) := by
    conv_rhs => rw [← hmap, List.filter_map]
    rfl
  simp only [among, bind_eq_ok_iff, satisfying_eq_ok_iff, pure, Except.pure, Except.ok.injEq,
    hdecides]
  constructor
  · rintro ⟨_, ⟨h, rfl⟩, rfl⟩
    exact ⟨h, hfilter.symm⟩
  · rintro ⟨h, rfl⟩
    exact ⟨_, ⟨h, rfl⟩, hfilter⟩

theorem Select.answer_eq (hlabels : q.labels s = .ok labels)
    (hdecides : ∀ r ∈ rows, ∃ b, r.satisfies q.condition = .ok b) : q.answer s rows =
      (fun shown => ⟨labels, shown⟩) <$> q.present (rows.filter (·.matches q.condition)) := by
  unfold answer
  rw [hlabels, Row.among_eq_ok_iff.mpr ⟨hdecides, rfl⟩]
  simp only [bind, Except.bind]
  cases q.present (rows.filter (·.matches q.condition)) <;> rfl

theorem Select.answer_eq_ok_iff : q.answer s rows = .ok result ↔
    q.labels s = .ok result.labels ∧ (∀ r ∈ rows, ∃ b, r.satisfies q.condition = .ok b) ∧
      q.present (rows.filter (·.matches q.condition)) = .ok result.rows := by
  simp only [answer, bind_eq_ok_iff, Row.among_eq_ok_iff, pure, Except.pure, Except.ok.injEq]
  constructor
  · rintro ⟨labels, hlabels, _, ⟨hdecides, rfl⟩, shown, hshown, rfl⟩
    exact ⟨hlabels, hdecides, hshown⟩
  · rintro ⟨hlabels, hdecides, hshown⟩
    exact ⟨_, hlabels, _, ⟨hdecides, rfl⟩, _, hshown, rfl⟩

theorem Expr.holds_eq_ok_iff {e : Expr} {r : Row} {b : Bool} :
    e.holds r = .ok b ↔ e.eval r = .ok (.bool b) := by
  unfold holds
  cases e.eval r with
  | error e => constructor <;> nofun
  | ok v =>
    cases v with
    | bool c => simp [bind, Except.bind, pure, Except.pure]
    | number n => constructor <;> nofun
    | string s => constructor <;> nofun

/-- The condition `p = FALSE`, which holds on the rows that a condition rejects. -/
def Expr.isFalse (p : Expr) : Expr := .binary p (.comparison .eq) (.literal (.bool false))

theorem Expr.scoped_isFalse_iff {p : Expr} : p.isFalse.Scoped s ↔ p.Scoped s := by
  simp [isFalse, Scoped, hasWildcard, columns]

/-- A condition has a truth value on a row when `p = FALSE` has one, which is the opposite. -/
theorem Row.satisfies_isFalse_iff {r : Row} {p : Expr} {b : Bool} :
    r.satisfies (some p.isFalse) = .ok b ↔ r.satisfies (some p) = .ok (!b) := by
  have heval : p.isFalse.eval r = (do
      let v ← p.eval r
      BinaryOp.apply (.comparison .eq) v (.bool false)) := rfl
  show p.isFalse.holds r = .ok b ↔ p.holds r = .ok (!b)
  rw [Expr.holds_eq_ok_iff, Expr.holds_eq_ok_iff, heval, bind_eq_ok_iff]
  constructor
  · rintro ⟨v, hv, happly⟩
    cases v with
    | bool c =>
      have hb : c = !b := by
        revert happly
        cases b <;> cases c <;> decide
      rw [hv, hb]
    | number n => cases happly
    | string s => cases happly
  · intro hp
    exact ⟨_, hp, by cases b <;> rfl⟩

theorem Row.matches_isFalse {r : Row} {p : Expr} {b : Bool} (h : r.satisfies (some p) = .ok b) :
    r.matches (some p.isFalse) = !r.matches (some p) := by
  have hnot : r.satisfies (some p.isFalse) = .ok !b := by
    rw [satisfies_isFalse_iff, Bool.not_not]
    exact h
  unfold Row.matches
  rw [h, hnot]

/-- A query answers on the rows that its condition does not reject as it does on all of them. -/
theorem Select.answer_filter (q : Select) (hscopes : s.Scopes q.condition)
    (hdecides : ∀ r ∈ rows, ∃ b, r.satisfies q.condition = .ok b) :
    { q with condition := none }.answer s (rows.filter (·.matches q.condition)) =
      q.answer s rows := by
  have hlabels : { q with condition := none }.labels s = q.labels s := by
    unfold labels
    rw [Schema.checkCondition_eq_ok_iff.mpr hscopes]
    rfl
  cases h : q.labels s with
  | error e =>
    unfold answer
    rw [hlabels, h]
    rfl
  | ok labels =>
    have hall : (rows.filter (·.matches q.condition)).filter (·.matches none) =
        rows.filter (·.matches q.condition) := List.filter_true _
    rw [answer_eq h hdecides, answer_eq (hlabels.trans h) fun r _ => ⟨true, rfl⟩, hall]
    rfl

theorem Select.present_eq (horder : q.order ≠ []) : q.present rows =
    (do (q.limited (← Row.sorted q.order rows)).mapM (Row.project q.projection)) := by
  unfold present
  rw [if_neg (by simpa using horder)]

end Tabular
