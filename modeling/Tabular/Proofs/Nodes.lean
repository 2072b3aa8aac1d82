import Tabular.Proofs.Scopes

/-! The nodes of expressions, in the order in which an evaluation finishes them: the operands of an
operator before the operator, and what stands on the left first. An expression has a value on a row
only if each of its nodes has one, and what the check of its scope says can be read off its nodes.
So the check refuses no expression that has a value on some row of the schema's columns. -/

namespace Tabular

variable {s : Schema} {r : Row} {name : String}

namespace Expr

variable {e node left right operand inner : Expr}

/-- The nodes of an expression in the order in which an evaluation finishes them, each with all that
stands below it. -/
def nodes : Expr → List Expr
  | column name => [column name]
  | literal v => [literal v]
  | wildcard => [wildcard]
  | binary left op right => left.nodes ++ right.nodes ++ [binary left op right]
  | signed sign operand => operand.nodes ++ [signed sign operand]
  | group inner => inner.nodes ++ [group inner]

theorem mem_nodes_binary_iff {op : BinaryOp} : node ∈ (binary left op right).nodes ↔
    node ∈ left.nodes ∨ node ∈ right.nodes ∨ node = binary left op right := by
  simp [nodes]

theorem mem_nodes_signed_iff {sign : Sign} : node ∈ (signed sign operand).nodes ↔
    node ∈ operand.nodes ∨ node = signed sign operand := by
  simp [nodes]

theorem mem_nodes_group_iff : node ∈ (group inner).nodes ↔
    node ∈ inner.nodes ∨ node = group inner := by
  simp [nodes]

/-- An expression that has a value on a row has a value at each of its nodes. -/
theorem exists_eval_of_mem_nodes {v : Value} (h : e.eval r = .ok v) (hnode : node ∈ e.nodes) :
    ∃ w, node.eval r = .ok w := by
  induction e generalizing v with
  | column name =>
    obtain rfl := List.mem_singleton.mp hnode
    exact ⟨v, h⟩
  | literal u =>
    obtain rfl := List.mem_singleton.mp hnode
    exact ⟨v, h⟩
  | wildcard => cases h
  | binary left op right ihl ihr =>
    obtain hl | hr | rfl := mem_nodes_binary_iff.mp hnode
    · obtain ⟨a, ha, -⟩ := bind_eq_ok_iff.mp h
      exact ihl ha hl
    · obtain ⟨a, -, hb⟩ := bind_eq_ok_iff.mp h
      obtain ⟨b, hb, -⟩ := bind_eq_ok_iff.mp hb
      exact ihr hb hr
    · exact ⟨v, h⟩
  | signed sign operand ih =>
    obtain hbelow | rfl := mem_nodes_signed_iff.mp hnode
    · obtain ⟨a, ha, -⟩ := bind_eq_ok_iff.mp h
      exact ih ha hbelow
    · exact ⟨v, h⟩
  | group inner ih =>
    obtain hbelow | rfl := mem_nodes_group_iff.mp hnode
    · exact ih h hbelow
    · exact ⟨v, h⟩

/-- The name in a node that is a column name. -/
def column? : Expr → Option String
  | column name => some name
  | _ => none

theorem column?_eq_some_iff : e.column? = some name ↔ e = column name := by
  cases e <;> simp [column?]

theorem hasWildcard_iff : e.hasWildcard = true ↔ wildcard ∈ e.nodes := by
  induction e with
  | column name => simp [hasWildcard, nodes]
  | literal v => simp [hasWildcard, nodes]
  | wildcard => simp [hasWildcard, nodes]
  | binary left op right ihl ihr => simp [hasWildcard, nodes, ihl, ihr]
  | signed sign operand ih => simp [hasWildcard, nodes, ih]
  | group inner ih => simp [hasWildcard, nodes, ih]

/-- The column names in an expression are those in its nodes, in the same order. -/
theorem columns_eq (e : Expr) : e.columns = e.nodes.filterMap column? := by
  induction e with
  | column name => rfl
  | literal v => rfl
  | wildcard => rfl
  | binary left op right ihl ihr =>
    rw [columns, nodes, List.filterMap_append, List.filterMap_append, ← ihl, ← ihr]
    exact (List.append_nil _).symm
  | signed sign operand ih =>
    rw [columns, nodes, List.filterMap_append, ← ih]
    exact (List.append_nil _).symm
  | group inner ih =>
    rw [columns, nodes, List.filterMap_append, ← ih]
    exact (List.append_nil _).symm

theorem mem_columns_iff : name ∈ e.columns ↔ column name ∈ e.nodes := by
  simp [columns_eq, column?_eq_some_iff]

theorem scoped_iff :
    e.Scoped s ↔ wildcard ∉ e.nodes ∧ ∀ name, column name ∈ e.nodes → name ∈ s.names := by
  simp only [Scoped, ← hasWildcard_iff, ← mem_columns_iff, Bool.not_eq_true]

/-- An expression that has a value on a row of the schema's columns is in scope. -/
theorem scoped_of_eval {v : Value} (hr : r.names = s.names) (h : e.eval r = .ok v) :
    e.Scoped s := by
  refine scoped_iff.mpr ⟨fun hw => ?_, fun name hname => ?_⟩
  · obtain ⟨w, hw⟩ := exists_eval_of_mem_nodes h hw
    cases hw
  · obtain ⟨w, hw⟩ := exists_eval_of_mem_nodes h hname
    rw [← hr, ← Row.get?_isSome_iff]
    rw [eval] at hw
    split at hw
    · next u hu => simp [hu]
    · cases hw

/-- The name is the first one from the left that is no column of the schema. -/
def FirstUnknown (s : Schema) (e : Expr) (name : String) : Prop :=
  ∃ before after, e.nodes = before ++ column name :: after ∧ name ∉ s.names ∧
    ∀ earlier, column earlier ∈ before → earlier ∈ s.names

/-- The first name that the check of the scope does not find is the leftmost such name. -/
theorem firstUnknown_iff : e.FirstUnknown s name ↔
    (e.columns.find? fun name => (s.index? name).isNone) = some name := by
  have hunknown (node : Expr) : node.column?.any (fun name => (s.index? name).isNone) = true ↔
      ∃ name, node = column name ∧ name ∉ s.names := by
    simp [Option.any_eq_true, column?_eq_some_iff, ← Schema.index?_isSome_iff]
  have hknown (before : List Expr) : (∀ node ∈ before,
      (!node.column?.any fun name => (s.index? name).isNone) = true) ↔
        ∀ earlier, column earlier ∈ before → earlier ∈ s.names := by
    simp only [Bool.not_eq_true', ← Bool.not_eq_true, hunknown]
    constructor
    · intro h earlier hearlier
      by_contra hnot
      exact h _ hearlier ⟨earlier, rfl, hnot⟩
    · rintro h - hnode ⟨earlier, rfl, hnot⟩
      exact hnot (h earlier hnode)
  rw [columns_eq, List.find?_filterMap, Option.bind_eq_some_iff]
  simp only [List.find?_eq_some_iff_append, hknown, hunknown, column?_eq_some_iff]
  constructor
  · rintro ⟨before, after, hsplit, hname, hbefore⟩
    exact ⟨_, ⟨⟨name, rfl, hname⟩, before, after, hsplit, hbefore⟩, rfl⟩
  · rintro ⟨-, ⟨⟨other, rfl, hname⟩, before, after, hsplit, hbefore⟩, heq⟩
    cases heq
    exact ⟨before, after, hsplit, hname, hbefore⟩

theorem checkScope_eq_wildcard_iff :
    e.checkScope s = .error .misplacedWildcard ↔ wildcard ∈ e.nodes := by
  rw [← hasWildcard_iff, checkScope]
  by_cases hw : e.hasWildcard = true
  · simp [hw]
  · rw [if_neg hw]
    cases e.columns.find? fun name => (s.index? name).isNone <;> simp [hw]

theorem checkScope_eq_unknown_iff : e.checkScope s = .error (.unknownColumn name) ↔
    wildcard ∉ e.nodes ∧ e.FirstUnknown s name := by
  rw [← hasWildcard_iff, firstUnknown_iff, checkScope]
  by_cases hw : e.hasWildcard = true
  · simp [hw]
  · rw [if_neg hw]
    cases e.columns.find? fun name => (s.index? name).isNone <;> simp [hw]

/-- The check of an expression's scope refuses it for a wildcard anywhere in it, or else for the
first name from the left that is no column of the schema. What it lets pass does not fail for a
wildcard or an unknown name on any row of the schema's columns, and what it refuses has no value on
any such row. -/
theorem checkScope_decides (s : Schema) (e : Expr) :
    (e.checkScope s = .error .misplacedWildcard ↔ wildcard ∈ e.nodes) ∧
    (∀ name, e.checkScope s = .error (.unknownColumn name) ↔
      wildcard ∉ e.nodes ∧ e.FirstUnknown s name) ∧
    (e.checkScope s = .ok () ↔
      wildcard ∉ e.nodes ∧ ∀ name, column name ∈ e.nodes → name ∈ s.names) ∧
    ∀ r : Row, r.names = s.names →
      (e.checkScope s = .ok () →
        e.eval r ≠ .error .misplacedWildcard ∧ ∀ name, e.eval r ≠ .error (.unknownColumn name)) ∧
      ∀ error, e.checkScope s = .error error → ∃ cause, e.eval r = .error cause := by
  refine ⟨checkScope_eq_wildcard_iff, fun _ => checkScope_eq_unknown_iff,
    checkScope_eq_ok_iff.trans scoped_iff, fun r hr => ⟨fun hok => ?_, fun error herror => ?_⟩⟩
  · have hdata := failsOnly_eval hr (checkScope_eq_ok_iff.mp hok)
    refine ⟨fun h => ?_, fun name h => ?_⟩
    · exact Error.not_ofData_of_isStructural rfl (hdata _ h)
    · exact Error.not_ofData_of_isStructural rfl (hdata _ h)
  · cases heval : e.eval r with
    | error cause => exact ⟨cause, rfl⟩
    | ok v =>
      rw [checkScope_eq_ok_iff.mpr (scoped_of_eval hr heval)] at herror
      cases herror

end Expr

end Tabular
