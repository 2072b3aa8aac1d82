import Tabular.Proofs.Expressions

/-! The text of statements. Clauses, lists and names follow each other in an order that a text shows
by its keywords, commas and parentheses, so a statement can be read back from its text when its
expressions can. -/

namespace Tabular

open Text

/-- What the clauses that follow an expression begin with. -/
def clauses : List String := [" FROM ", " WHERE ", " ORDER BY ", " LIMIT ", " DESC"]

section Clauses

variable {leads : List String} {rest : List Char}

theorem Text.Opens.closes_of_subset (h : Opens leads rest) (hleads : leads ⊆ clauses) :
    Closes rest :=
  h.closes fun l hl => (show ∀ l ∈ clauses, l.toList.head? = some ' ' by decide) l (hleads hl)

/-- No clause begins like an operator and its right operand. -/
theorem Text.Opens.follows (h : Opens leads rest) (hleads : leads ⊆ clauses) : Follows rest := by
  refine ⟨(h.closes_of_subset hleads).ends, fun op => ?_⟩
  have hdiffers : ∀ op ∈ BinaryOp.all, ∀ l ∈ clauses, ¬l.toList <+: op.infixed.toList ∧
      ¬op.infixed.toList <+: l.toList := by
    decide
  exact h.not_prefix (by simp [BinaryOp.infixed]) fun l hl => hdiffers op op.mem_all l (hleads hl)

end Clauses

theorem ColumnType.reads_sql : Reads sql (fun _ => True) Ends := by
  have hclosed (rest : List Char) : Ends (")".toList ++ rest) :=
    headIn_cons (by decide) rest
  have hvarchar := (reads_repr.after "VARCHAR(").before ")" hclosed
  intro a _ b _ rest rest' _ _ heq
  cases a with
  | int =>
    cases b with
    | int => exact ⟨rfl, List.append_cancel_left heq⟩
    | bool | varchar => simp [sql] at heq
  | bool =>
    cases b with
    | bool => exact ⟨rfl, List.append_cancel_left heq⟩
    | int | varchar => simp [sql] at heq
  | varchar m =>
    cases b with
    | varchar n =>
      obtain ⟨rfl, hsame⟩ := hvarchar m trivial n trivial rest rest' trivial trivial heq
      exact ⟨rfl, hsame⟩
    | int | bool => simp [sql] at heq

theorem Uniqueness.reads_sql : Reads sql (fun _ => True) Separates := by
  intro a _ b _ rest rest' _ _ heq
  cases a <;> cases b
  · exact ⟨rfl, List.append_cancel_left heq⟩
  · simp [sql] at heq
  · simp [sql] at heq
  · exact ⟨rfl, List.append_cancel_left heq⟩

theorem Column.reads_sql : Reads sql (isPlain ·.name = true) Separates := by
  have hrule : Reads (clause " " Uniqueness.sql) _ Separates :=
    Uniqueness.reads_sql.clause (fun _ h => h) fun rest h => by
      rintro ⟨tail, rfl⟩
      exact absurd (h ' ' rfl) (by decide)
  have htype := (ColumnType.reads_sql.append hrule fun o rest _ hrest => ?_).after " "
  · refine (reads_name.append htype fun _ rest _ _ => (closes_append (by decide) _ rest).ends).comap
      (f := fun c => (c.name, c.type, c.uniqueness)) ?_ ?_ ?_
    · rintro ⟨name, type, _ | rule⟩ <;>
        simp [sql, clause, String.append_assoc]
    · exact fun c hc => ⟨hc, trivial, fun _ _ => trivial⟩
    · rintro ⟨name, type, rule⟩ ⟨name', type', rule'⟩ h
      cases h
      rfl
  · cases o with
    | none => exact hrest.ends
    | some rule => exact (closes_append (by decide) _ rest).ends

theorem SortKey.reads_sql : Reads sql (·.expr.isCanonical = true) fun rest =>
    Follows rest ∧ ¬" DESC".toList <+: rest := by
  have hdesc : Reads (fun b : Bool => if b then " DESC" else "") (fun _ => True)
      fun rest => Follows rest ∧ ¬" DESC".toList <+: rest := by
    rintro (_ | _) _ (_ | _) _ rest rest' hrest hrest' heq
    · exact ⟨rfl, heq⟩
    · exact absurd ⟨rest', heq.symm⟩ hrest.2
    · exact absurd ⟨rest, heq⟩ hrest'.2
    · exact ⟨rfl, List.append_cancel_left heq⟩
  refine (Expr.reads_sql.append hdesc fun b rest _ hrest => ?_).comap
    (f := fun k => (k.expr, k.descending)) ?_ ?_ ?_
  · cases b with
    | false => exact hrest.1
    | true =>
      have hopens : Opens [" DESC"] (" DESC".toList ++ rest) := .inr ⟨_, by simp, rest, rfl⟩
      exact hopens.follows (by decide)
  · exact fun _ => rfl
  · exact fun _ hk => ⟨hk, trivial⟩
  · rintro ⟨e, b⟩ ⟨e', b'⟩ h
    cases h
    rfl

theorem Assignment.reads_sql :
    Reads sql (fun a => isPlain a.column = true ∧ a.value.isCanonical = true) Follows := by
  refine (reads_name.append (Expr.reads_sql.after " = ") fun _ rest _ _ =>
    (closes_append (by decide) _ rest).ends).comap (f := fun a => (a.column, a.value)) ?_ ?_ ?_
  · intro a
    simp [sql, String.append_assoc]
  · exact fun _ ha => ha
  · rintro ⟨name, e⟩ ⟨name', e'⟩ h
    cases h
    rfl

theorem reads_columns : Reads (fun items : List Column => listed (items.map (·.sql)))
    (fun items => ∀ c ∈ items, isPlain c.name = true) fun rest => Separates rest ∧ Closes rest :=
  Column.reads_sql.listed (fun rest => headIn_cons (by decide) rest) fun c hc => by
    rw [Column.sql, String.append_assoc, String.append_assoc]
    exact (starts_of_isPlain hc).append _

theorem reads_names : Reads (fun items : List String => listed items)
    (fun items => ∀ name ∈ items, isPlain name = true) fun rest => Ends rest ∧ Closes rest :=
  (reads_name.listed (fun rest => headIn_cons (by decide) rest)
    fun _ => starts_of_isPlain).comap (fun items => by simp) (fun _ h => h) fun _ _ => id

theorem reads_exprs : Reads (fun items : List Expr => listed (items.map (·.sql)))
    (fun items => ∀ e ∈ items, e.isCanonical = true) fun rest => Follows rest ∧ Closes rest :=
  Expr.reads_sql.listed (fun _ => follows_cons (by decide)) fun _ => Expr.starts_sql

theorem reads_assignments : Reads (fun items : List Assignment => listed (items.map (·.sql)))
    (fun items => ∀ a ∈ items, isPlain a.column = true ∧ a.value.isCanonical = true)
    fun rest => Follows rest ∧ Closes rest :=
  Assignment.reads_sql.listed (fun _ => follows_cons (by decide)) fun a ha => by
    rw [Assignment.sql, String.append_assoc]
    exact (starts_of_isPlain ha.1).append _

theorem reads_sortKeys : Reads (fun items : List SortKey => listed (items.map (·.sql)))
    (fun items => ∀ k ∈ items, k.expr.isCanonical = true)
    fun rest => (Follows rest ∧ ¬" DESC".toList <+: rest) ∧ Closes rest := by
  refine SortKey.reads_sql.listed (fun rest => ⟨follows_cons (by decide), ?_⟩) fun k hk => ?_
  · rintro ⟨tail, htail⟩
    exact absurd (List.cons.inj htail).1 (by decide)
  · exact (Expr.starts_sql hk).append _

theorem reads_condition : Reads (clause " WHERE " Expr.sql)
    (fun o => ∀ e ∈ o, e.isCanonical = true) (Opens [" ORDER BY ", " LIMIT "]) :=
  Expr.reads_sql.clause (fun _ h => h.follows (by decide))
    fun _ h => h.not_prefix (by decide) (by decide)

theorem whereClause_eq (o : Option Expr) : whereClause o = clause " WHERE " Expr.sql o := by
  cases o <;> rfl

theorem reads_order :
    Reads (clause " ORDER BY " fun keys : List SortKey => listed (keys.map (·.sql)))
      (fun o => ∀ keys ∈ o, ∀ k ∈ keys, k.expr.isCanonical = true) (Opens [" LIMIT "]) :=
  reads_sortKeys.clause
    (fun _ h => ⟨⟨h.follows (by decide), h.not_prefix (by decide) (by decide)⟩,
      h.closes_of_subset (by decide)⟩)
    fun _ h => h.not_prefix (by decide) (by decide)

theorem reads_limit : Reads (clause " LIMIT " Nat.repr) (fun _ => True) (Opens []) := by
  have hlimit : Reads (clause " LIMIT " Nat.repr) _ (Opens []) :=
    reads_repr.clause (fun _ h => (h.closes_of_subset (by decide)).ends)
      fun _ h => h.not_prefix (by decide) (by decide)
  exact hlimit.mono (fun _ _ _ _ => trivial) fun _ => id

/-- The end of a query, which follows the name of its table. -/
def Select.ending (p : Option Expr × Option (List SortKey) × Option Nat) : String :=
  clause " WHERE " Expr.sql p.1 ++ (clause " ORDER BY " (listed <| ·.map (·.sql)) p.2.1 ++
    clause " LIMIT " Nat.repr p.2.2)

theorem Select.opens_ending (p : Option Expr × Option (List SortKey) × Option Nat)
    {rest : List Char} (h : Opens [] rest) :
    Opens [" WHERE ", " ORDER BY ", " LIMIT "] ((ending p).toList ++ rest) := by
  simp only [ending, String.toList_append, List.append_assoc]
  exact ((h.append_clause p.2.2).append_clause p.2.1).append_clause p.1

theorem Select.reads_ending : Reads ending
    (fun p => (∀ e ∈ p.1, e.isCanonical = true) ∧
      (∀ keys ∈ p.2.1, ∀ k ∈ keys, k.expr.isCanonical = true) ∧ True) (Opens []) := by
  have horder := reads_order.append reads_limit fun o _ _ h => h.append_clause o
  refine reads_condition.append horder fun p rest _ h => ?_
  rw [String.toList_append, List.append_assoc]
  exact (h.append_clause p.2).append_clause p.1

/-! ### Statements -/

def Select.isCanonical (q : Select) : Bool :=
  q.projection.all (·.isCanonical) && isPlain q.table && q.condition.all (·.isCanonical) &&
    q.order.all (·.expr.isCanonical)

theorem Select.reads_sql : Reads sql (·.isCanonical = true) (Opens []) := by
  have htable := (reads_name.append reads_ending fun p rest _ h =>
    ((opens_ending p h).closes_of_subset (by decide)).ends).after " FROM "
  have hall := (reads_exprs.append htable fun p rest _ _ =>
    ⟨(opens_append " FROM " _ rest).follows (by decide),
      (opens_append " FROM " _ rest).closes_of_subset (by decide)⟩).after "SELECT "
  refine hall.comap
    (f := fun q => (q.projection, q.table, q.condition, filled? q.order, q.limit)) ?_ ?_ ?_
  · rintro ⟨projection, table, condition, _ | ⟨k, order⟩, _ | limit⟩ <;>
      simp [sql, ending, whereClause_eq, clause, filled?, String.append_assoc]
  · intro q hq
    simp only [isCanonical, Bool.and_eq_true, List.all_eq_true, Option.all_eq_true] at hq
    exact ⟨hq.1.1.1, hq.1.1.2, hq.1.2, forall_mem_filled? hq.2, trivial⟩
  · rintro ⟨projection, table, condition, order, limit⟩ q' h
    simp only [Prod.mk.injEq] at h
    obtain ⟨rfl, rfl, rfl, horder, rfl⟩ := h
    rw [filled?_inj horder]

def CreateTable.isCanonical (q : CreateTable) : Bool :=
  isPlain q.table && q.columns.all (isPlain ·.name)

theorem CreateTable.reads_sql : Reads sql (·.isCanonical = true) (Opens []) := by
  have hcolumns := (reads_columns.before ")" fun rest =>
    ⟨headIn_cons (by decide) rest, headIn_cons (by decide) rest⟩).after " ("
  have hall := (reads_name.append hcolumns fun _ rest _ _ =>
    (closes_append (by decide) _ rest).ends).after "CREATE TABLE "
  refine (hall.mono (fun _ => id) fun _ _ => trivial).comap (f := fun q => (q.table, q.columns))
    ?_ ?_ ?_
  · intro q
    simp [sql, String.append_assoc]
  · intro q hq
    simpa [isCanonical] using hq
  · rintro ⟨table, columns⟩ ⟨table', columns'⟩ h
    cases h
    rfl

def InsertRow.isCanonical (q : InsertRow) : Bool :=
  isPlain q.table && q.columns.all isPlain && q.values.all (·.isCanonical)

theorem InsertRow.reads_sql : Reads sql (·.isCanonical = true) (Opens []) := by
  have hvalues := (reads_exprs.before ")" fun rest =>
    ⟨follows_cons (by decide), headIn_cons (by decide) rest⟩).after "VALUES ("
  have hnames := (reads_names.before ") " fun rest =>
    ⟨headIn_cons (by decide) _, headIn_cons (by decide) _⟩)
  have hcolumns : Reads (clause "(" _) _ (Opens ["VALUES ("]) :=
    hnames.clause (fun _ _ => trivial) fun _ h => h.not_prefix (by decide) (by decide)
  have hrow := (hcolumns.append hvalues fun _ rest _ _ => opens_append _ _ rest).after " "
  have hall := (reads_name.append hrow fun _ rest _ _ =>
    (closes_append (by decide) _ rest).ends).after "INSERT INTO "
  refine (hall.mono (fun _ => id) fun _ _ => trivial).comap
    (f := fun q => (q.table, filled? q.columns, q.values)) ?_ ?_ ?_
  · rintro ⟨table, _ | ⟨name, columns⟩, values⟩
    · simp only [sql, clause, filled?, String.append_assoc]
      rfl
    · simp only [sql, clause, filled?, String.append_assoc]
      rfl
  · intro q hq
    simp only [isCanonical, Bool.and_eq_true, List.all_eq_true] at hq
    exact ⟨hq.1.1, forall_mem_filled? hq.1.2, hq.2⟩
  · rintro ⟨table, columns, values⟩ ⟨table', columns', values'⟩ h
    simp only [Prod.mk.injEq] at h
    obtain ⟨rfl, hcolumns, rfl⟩ := h
    rw [filled?_inj hcolumns]

def Update.isCanonical (q : Update) : Bool :=
  isPlain q.table && q.assignments.all (fun a => isPlain a.column && a.value.isCanonical) &&
    q.condition.all (·.isCanonical)

theorem Update.reads_sql : Reads sql (·.isCanonical = true) (Opens []) := by
  have hassignments := (reads_assignments.append
    (reads_condition.mono (fun _ => id) fun _ (h : Opens [] _) => h.mono (by simp))
    fun o _ _ h => ⟨(h.append_clause o).follows (by decide),
      (h.append_clause o).closes_of_subset (by decide)⟩).after " SET "
  have hall := (reads_name.append hassignments fun _ rest _ _ =>
    (closes_append (by decide) _ rest).ends).after "UPDATE "
  refine hall.comap (f := fun q => (q.table, q.assignments, q.condition)) ?_ ?_ ?_
  · intro q
    simp [sql, whereClause_eq, String.append_assoc]
  · intro q hq
    simp only [isCanonical, Bool.and_eq_true, List.all_eq_true, Option.all_eq_true] at hq
    exact ⟨hq.1.1, hq.1.2, hq.2⟩
  · rintro ⟨table, assignments, condition⟩ ⟨table', assignments', condition'⟩ h
    cases h
    rfl

def Delete.isCanonical (q : Delete) : Bool := isPlain q.table && q.condition.all (·.isCanonical)

theorem Delete.reads_sql : Reads sql (·.isCanonical = true) (Opens []) := by
  have hall := (reads_name.append
    (reads_condition.mono (fun _ => id) fun _ (h : Opens [] _) => h.mono (by simp))
    fun o _ _ h => ((h.append_clause o).closes_of_subset (by decide)).ends).after "DELETE FROM "
  refine hall.comap (f := fun q => (q.table, q.condition)) ?_ ?_ ?_
  · intro q
    simp [sql, whereClause_eq, String.append_assoc]
  · intro q hq
    simp only [isCanonical, Bool.and_eq_true, Option.all_eq_true] at hq
    exact hq
  · rintro ⟨table, condition⟩ ⟨table', condition'⟩ h
    cases h
    rfl

def DropTable.isCanonical (q : DropTable) : Bool := isPlain q.table

theorem DropTable.reads_sql : Reads sql (·.isCanonical = true) (Opens []) := by
  have hall := (reads_name.mono (fun _ => id) fun _ (h : Opens [] _) =>
    (h.closes_of_subset (by decide)).ends).after "DROP TABLE "
  refine hall.comap (f := (·.table)) (fun _ => rfl) (fun _ => id) ?_
  rintro ⟨table⟩ ⟨table'⟩ rfl
  rfl

namespace Statement

/-- The names of a statement are plain and its expressions canonical. -/
def isCanonical : Statement → Bool
  | create q => q.isCanonical
  | select q => q.isCanonical
  | insert q => q.isCanonical
  | update q => q.isCanonical
  | delete q => q.isCanonical
  | drop q => q.isCanonical

theorem exists_sql_eq (s : Statement) :
    ∃ body, s.sql.toList = s.verb.sql.toList ++ ' ' :: body := by
  cases s <;>
    simp [sql, verb, Verb.sql, CreateTable.sql, Select.sql, InsertRow.sql, Update.sql, Delete.sql,
      DropTable.sql]

theorem verb_eq {s s' : Statement} (h : s.sql = s'.sql) : s.verb = s'.verb := by
  obtain ⟨body, hs⟩ := s.exists_sql_eq
  obtain ⟨body', hs'⟩ := s'.exists_sql_eq
  have hword (v : Verb) : IsWord v.sql := by cases v <;> decide
  have hends (body : List Char) : Ends (' ' :: body) := headIn_cons (by decide) body
  rw [h, hs'] at hs
  have hverb := (reads_word _ (hword _) _ (hword _) _ _ (hends body) (hends body') hs.symm).1
  revert hverb
  cases s.verb <;> cases s'.verb <;> decide

/-- Canonical statements with the same text are the same. -/
theorem sql_eq_sql_iff {s s' : Statement} (hs : s.isCanonical = true)
    (hs' : s'.isCanonical = true) : s.sql = s'.sql ↔ s = s' := by
  refine ⟨fun h => ?_, congrArg sql⟩
  have hverb := verb_eq h
  cases s with
  | create q =>
    cases s' with
    | create q' => exact congrArg create (CreateTable.reads_sql.eq_of_text_eq hs hs' h)
    | _ => cases hverb
  | select q =>
    cases s' with
    | select q' => exact congrArg select (Select.reads_sql.eq_of_text_eq hs hs' h)
    | _ => cases hverb
  | insert q =>
    cases s' with
    | insert q' => exact congrArg insert (InsertRow.reads_sql.eq_of_text_eq hs hs' h)
    | _ => cases hverb
  | update q =>
    cases s' with
    | update q' => exact congrArg update (Update.reads_sql.eq_of_text_eq hs hs' h)
    | _ => cases hverb
  | delete q =>
    cases s' with
    | delete q' => exact congrArg delete (Delete.reads_sql.eq_of_text_eq hs hs' h)
    | _ => cases hverb
  | drop q =>
    cases s' with
    | drop q' => exact congrArg drop (DropTable.reads_sql.eq_of_text_eq hs hs' h)
    | _ => cases hverb

/-- A query with an order and a limit, and one that compares with a string that looks like them. -/
theorem sql_ne_sql_quoted :
    let name : Expr := .column "name"
    let query (word : String) (order : List SortKey) (limit : Option Nat) : Statement :=
      .select ⟨[name], "users", some (.binary name (.comparison .eq) (.literal (.string word))),
        order, limit⟩
    let s := query "Ann" [⟨name, true⟩] (some 5)
    let s' := query "Ann\" ORDER BY name DESC LIMIT 5" [] none
    s.isCanonical = true ∧ s'.isCanonical = true ∧ s.sql ≠ s'.sql := by
  intro name query s s'
  have hs : s.isCanonical = true := by decide
  have hs' : s'.isCanonical = true := by decide
  exact ⟨hs, hs', fun h => absurd ((sql_eq_sql_iff hs hs').mp h) (by decide)⟩

end Statement

end Tabular
