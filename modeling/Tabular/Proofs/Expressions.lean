import Mathlib.Data.List.Nodup
import Tabular.Proofs.Texts

/-! The text of expressions. Parentheses are shown only where a tree has groups, so a text can be
read back only when no operand is an operation that would need them: such an expression is
canonical. Its text tells it, and where it ends, wherever no operator follows. -/

namespace Tabular

open Text

/-- The words of statements that are no names. -/
def keywords : List String :=
  ["SELECT", "FROM", "WHERE", "ORDER", "BY", "LIMIT", "DESC", "INSERT", "INTO", "VALUES", "UPDATE",
    "SET", "DELETE", "CREATE", "TABLE", "DROP", "PRIMARY", "KEY", "UNIQUE", "INT", "BOOL",
    "VARCHAR", "AND", "OR", "TRUE", "FALSE"]

/-- The name has letters, digits and underscores, no digit first, and is no keyword. -/
def Text.isPlain (name : String) : Bool :=
  name.toList.all isNameChar && name.toList.head?.any (!·.isDigit) && name ∉ keywords

theorem Text.isWord_of_isPlain {name : String} (h : isPlain name = true) : IsWord name := by
  simp only [isPlain, Bool.and_eq_true, List.all_eq_true] at h
  exact h.1.1

theorem Text.exists_head_of_isPlain {name : String} (h : isPlain name = true) :
    ∃ c rest, name.toList = c :: rest ∧ isNameChar c = true ∧ c.isDigit = false := by
  have hword := isWord_of_isPlain h
  simp only [isPlain, Bool.and_eq_true, Option.any_eq_true] at h
  obtain ⟨⟨-, c, hc, hdigit⟩, -⟩ := h
  obtain ⟨rest, hname⟩ := List.head?_eq_some_iff.mp hc
  refine ⟨c, rest, hname, hword c ?_, by simpa using hdigit⟩
  rw [hname]
  exact List.mem_cons_self

theorem Text.notMem_of_isNameChar {c : Char} (hc : isNameChar c = true) : c ∉ [' ', ')'] := by
  intro hmem
  simp only [List.mem_cons, List.not_mem_nil, or_false] at hmem
  obtain rfl | rfl := hmem <;> exact absurd hc (by decide)

theorem Text.starts_of_isPlain {name : String} (h : isPlain name = true) : Starts name := by
  obtain ⟨c, rest, hname, hc, -⟩ := exists_head_of_isPlain h
  exact ⟨c, rest, hname, notMem_of_isNameChar hc⟩

theorem Text.reads_name : Reads id (isPlain · = true) Ends :=
  reads_word.mono (fun _ => isWord_of_isPlain) fun _ => id

namespace BinaryOp

def all : List BinaryOp :=
  [.comparison .eq, .comparison .ne, .comparison .lt, .comparison .le, .comparison .gt,
    .comparison .ge, .arithmetic .add, .arithmetic .sub, .arithmetic .mul, .arithmetic .div,
    .connective .and, .connective .or]

theorem mem_all (op : BinaryOp) : op ∈ all := by
  cases op with
  | comparison op => cases op <;> decide
  | arithmetic op => cases op <;> decide
  | connective op => cases op <;> decide

theorem sql_inj {op op' : BinaryOp} (h : op.sql = op'.sql) : op = op' :=
  List.inj_on_of_nodup_map (show (all.map sql).Nodup by decide) op.mem_all op'.mem_all h

theorem space_notMem_sql (op : BinaryOp) : ' ' ∉ op.sql.toList :=
  (show ∀ op ∈ all, ' ' ∉ op.sql.toList by decide) op op.mem_all

/-- The text between the operands. -/
def infixed (op : BinaryOp) : String := " " ++ op.sql ++ " "

theorem reads_infixed : Reads infixed (fun _ => True) fun _ => True := by
  intro op _ op' _ rest rest' _ _ heq
  have hsplit : op.sql.toList ++ ' ' :: rest = op'.sql.toList ++ ' ' :: rest' := by
    simpa [infixed] using heq
  have hno (op : BinaryOp) : ∀ c ∈ op.sql.toList, (c != ' ') = true := by
    intro c hc
    simp only [bne_iff_ne]
    rintro rfl
    exact op.space_notMem_sql hc
  obtain ⟨hop, hsame⟩ :=
    eq_of_append_eq (p := (· != ' ')) (hno op) (hno op') (by simp) (by simp) hsplit
  exact ⟨sql_inj (String.toList_inj.mp hop), (List.cons.inj hsame).2⟩

end BinaryOp

/-- What can follow a whole expression: what can follow a word, but no operator. -/
def Text.Follows (rest : List Char) : Prop :=
  Ends rest ∧ ∀ op : BinaryOp, ¬op.infixed.toList <+: rest

theorem Text.follows_cons {c : Char} {rest : List Char} (hc : c ∈ [',', ')']) :
    Follows (c :: rest) := by
  constructor
  · rintro _ ⟨⟩
    exact List.mem_cons_of_mem _ hc
  · rintro op ⟨tail, htail⟩
    obtain rfl : ' ' = c := (List.cons.inj (by simpa [BinaryOp.infixed] using htail)).1
    exact absurd hc (by decide)

/-! ### Canonical expressions -/

namespace Expr

def isBinary : Expr → Bool
  | binary .. => true
  | _ => false

def isSigned : Expr → Bool
  | signed .. => true
  | _ => false

/-- No operand is an operation that its text would need parentheses for, the numbers have no sign of
their own, and the names are plain. -/
def isCanonical : Expr → Bool
  | column name => isPlain name
  | literal (.number n) => 0 ≤ n
  | literal _ => true
  | wildcard => true
  | binary left _ right =>
    !left.isBinary && !right.isBinary && left.isCanonical && right.isCanonical
  | signed _ operand => !operand.isBinary && !operand.isSigned && operand.isCanonical
  | group inner => inner.isCanonical

/-- A canonical expression that can be an operand of a binary operation. -/
def IsOperand (e : Expr) : Prop := e.isCanonical = true ∧ e.isBinary = false

/-- The mark that an operand begins with, unless it is a word. -/
def mark? : Expr → Option Char
  | literal (.string _) => some '"'
  | wildcard => some '*'
  | signed .plus _ => some '+'
  | signed .minus _ => some '-'
  | group _ => some '('
  | _ => none

end Expr

theorem Value.sql_number {n : Int64} (h : 0 ≤ n) : (number n).sql = n.toInt.toNat.repr := by
  have hn : 0 ≤ n.toInt := Int64.le_iff_toInt_le.mp h
  rw [sql, Int.repr_eq_if, if_pos hn]

theorem Expr.isWord_sql {e : Expr} (he : e.IsOperand) (hmark : e.mark? = none) :
    IsWord e.sql ∧ e.sql.toList ≠ [] := by
  obtain ⟨hc, hb⟩ := he
  match e with
  | column name =>
    obtain ⟨c, rest, hname, -⟩ := exists_head_of_isPlain hc
    exact ⟨isWord_of_isPlain hc, fun hnil => nomatch hname.symm.trans hnil⟩
  | literal (.number n) =>
    rw [Expr.sql, Value.sql_number (of_decide_eq_true hc)]
    exact ⟨isWord_repr _, by simp⟩
  | literal (.bool b) => cases b <;> exact ⟨by decide, by decide⟩
  | literal (.string s) => cases hmark
  | binary .. => cases hb

theorem Expr.exists_head {e : Expr} (he : e.IsOperand) : ∃ c rest, e.sql.toList = c :: rest ∧
    e.mark? = if isNameChar c then none else some c := by
  cases hmark : e.mark? with
  | none =>
    obtain ⟨hword, hne⟩ := isWord_sql he hmark
    obtain ⟨c, rest, hsql⟩ := List.exists_cons_of_ne_nil hne
    refine ⟨c, rest, hsql, (if_pos (hword c ?_)).symm⟩
    rw [hsql]
    exact List.mem_cons_self
  | some c =>
    cases e with
    | literal v =>
      cases v with
      | string s => exact ⟨'"', _, toList_quoted s, hmark.symm⟩
      | _ => cases hmark
    | wildcard => exact ⟨'*', [], rfl, hmark.symm⟩
    | signed sign operand =>
      cases sign with
      | plus => exact ⟨'+', operand.sql.toList, by simp [sql, Sign.sql], hmark.symm⟩
      | minus => exact ⟨'-', operand.sql.toList, by simp [sql, Sign.sql], hmark.symm⟩
    | group inner => exact ⟨'(', inner.sql.toList ++ [')'], by simp [sql], hmark.symm⟩
    | column | binary => cases hmark

theorem Expr.mark?_eq {e e' : Expr} (he : e.IsOperand) (he' : e'.IsOperand)
    {rest rest' : List Char} (h : e.sql.toList ++ rest = e'.sql.toList ++ rest') :
    e.mark? = e'.mark? := by
  obtain ⟨c, tail, hsql, hmark⟩ := exists_head he
  obtain ⟨c', tail', hsql', hmark'⟩ := exists_head he'
  rw [hsql, hsql'] at h
  rw [hmark, hmark', (List.cons.inj h).1]

/-- What a word means that is not a keyword: a truth value, a number, or else a column. -/
def Expr.ofWord (word : String) : Expr :=
  if word = "TRUE" then literal (.bool true)
  else if word = "FALSE" then literal (.bool false)
  else if word.toList.head?.any (·.isDigit) then
    literal (.number (.ofInt (Nat.ofDigitChars 10 word.toList 0)))
  else column word

theorem Text.any_isDigit_repr (n : Nat) : n.repr.toList.head?.any (·.isDigit) = true := by
  rw [Nat.toList_repr]
  obtain ⟨c, rest, hdigits⟩ := List.exists_cons_of_ne_nil (Nat.toDigits_ne_nil (n := n) (b := 10))
  have hc : c ∈ Nat.toDigits 10 n := by
    rw [hdigits]
    exact List.mem_cons_self
  rw [hdigits]
  exact Nat.isDigit_of_mem_toDigits (by decide) (by decide) hc

theorem Expr.ofWord_repr (n : Nat) : ofWord n.repr = literal (.number (.ofInt n)) := by
  have hdigit := any_isDigit_repr n
  have hne {word : String} (hword : word.toList.head?.any (·.isDigit) = false) : n.repr ≠ word := by
    rintro rfl
    rw [hdigit] at hword
    cases hword
  rw [ofWord, if_neg (hne (by decide)), if_neg (hne (by decide)), if_pos hdigit, Nat.toList_repr,
    Nat.ofDigitChars_ten_toDigits]

theorem Expr.ofWord_of_isPlain {name : String} (h : isPlain name = true) :
    ofWord name = column name := by
  obtain ⟨c, rest, hname, -, hdigit⟩ := exists_head_of_isPlain h
  have hne {word : String} (hword : isPlain word = false) : name ≠ word := by
    rintro rfl
    rw [h] at hword
    cases hword
  rw [ofWord, if_neg (hne (by decide)), if_neg (hne (by decide)), hname]
  simp [hdigit]

/-- The text of a word tells what it means. -/
theorem Expr.ofWord_sql {e : Expr} (he : e.IsOperand) (hmark : e.mark? = none) :
    ofWord e.sql = e := by
  obtain ⟨hc, hb⟩ := he
  match e with
  | column name => exact ofWord_of_isPlain hc
  | literal (.number n) =>
    have hn : 0 ≤ n := of_decide_eq_true hc
    rw [Expr.sql, Value.sql_number hn, ofWord_repr,
      Int.toNat_of_nonneg (Int64.le_iff_toInt_le.mp hn), Int64.ofInt_toInt]
  | literal (.bool b) => cases b <;> decide
  | literal (.string s) => cases hmark
  | binary .. => cases hb

/-! ### Operands and whole expressions -/

namespace Expr

variable {e e' : Expr}

/-- The expressions begin with the same mark, so they are of one kind. -/
inductive Alike : Expr → Expr → Prop where
  | string (s s' : String) : Alike (literal (.string s)) (literal (.string s'))
  | wildcard : Alike wildcard wildcard
  | signed (sign : Sign) (operand operand' : Expr) :
      Alike (signed sign operand) (signed sign operand')
  | group (inner inner' : Expr) : Alike (group inner) (group inner')

theorem alike_of_mark? {c : Char} (h : e.mark? = some c) (h' : e'.mark? = some c) :
    Alike e e' := by
  rcases e with _ | (_ | _ | _) | _ | _ | ⟨_ | _⟩ | _ <;> cases h <;>
    rcases e' with _ | (_ | _ | _) | _ | _ | ⟨_ | _⟩ | _ <;>
      first | constructor | exact absurd h' (by simp [mark?])

/-- Operands that longer texts begin with are alike, or both are words. -/
theorem alike_of_append_eq (he : e.IsOperand) (he' : e'.IsOperand) {rest rest' : List Char}
    (h : e.sql.toList ++ rest = e'.sql.toList ++ rest') :
    Alike e e' ∨ e.mark? = none ∧ e'.mark? = none := by
  have hmark := mark?_eq he he' h
  cases hc : e.mark? with
  | none => exact .inr ⟨rfl, hmark.symm.trans hc⟩
  | some c => exact .inl (alike_of_mark? hc (hmark.symm.trans hc))

theorem readsAt_word (he : e.IsOperand) (hmark : e.mark? = none) :
    ReadsAt sql IsOperand Ends e := by
  intro e' he' rest rest' hrest hrest' heq
  have hmark' : e'.mark? = none := (mark?_eq he he' heq).symm.trans hmark
  obtain ⟨hsql, hsame⟩ := reads_word e.sql (isWord_sql he hmark).1 e'.sql
    (isWord_sql he' hmark').1 rest rest' hrest hrest' heq
  have hword : ofWord e.sql = ofWord e'.sql := congrArg ofWord hsql
  rw [ofWord_sql he hmark, ofWord_sql he' hmark'] at hword
  exact ⟨hword, hsame⟩

theorem readsAt_string (s : String) : ReadsAt sql IsOperand Ends (literal (.string s)) := by
  intro e' he' rest rest' hrest hrest' heq
  obtain halike | ⟨⟨⟩, -⟩ := alike_of_append_eq (e := literal (.string s)) ⟨rfl, rfl⟩ he' heq
  cases halike with | string _ s' =>
  have hquote {rest : List Char} (h : Ends rest) : rest.head? ≠ some '"' :=
    fun hc => absurd (h _ hc) (by decide)
  obtain ⟨rfl, hsame⟩ := reads_quoted s trivial s' trivial _ _ (hquote hrest) (hquote hrest') heq
  exact ⟨rfl, hsame⟩

theorem readsAt_wildcard : ReadsAt sql IsOperand Ends wildcard := by
  intro e' he' rest rest' _ _ heq
  obtain halike | ⟨⟨⟩, -⟩ := alike_of_append_eq (e := wildcard) ⟨rfl, rfl⟩ he' heq
  cases halike
  exact ⟨rfl, List.append_cancel_left heq⟩

theorem isOperand_of_signed {sign : Sign} {operand : Expr} (h : (signed sign operand).IsOperand) :
    operand.IsOperand := by
  simp only [IsOperand, isCanonical, Bool.and_eq_true, Bool.not_eq_true'] at h
  exact ⟨h.1.2, h.1.1.1⟩

theorem readsAt_signed {sign : Sign} {operand : Expr} (he : (signed sign operand).IsOperand)
    (h : ReadsAt sql IsOperand Ends operand) :
    ReadsAt sql IsOperand Ends (signed sign operand) := by
  intro e' he' rest rest' hrest hrest' heq
  obtain halike | ⟨hmark, -⟩ := alike_of_append_eq he he' heq
  · cases halike with | signed _ _ operand' =>
    simp only [sql, String.toList_append, List.append_assoc] at heq
    obtain ⟨rfl, hsame⟩ := h operand' (isOperand_of_signed he') _ _ hrest hrest'
      (List.append_cancel_left heq)
    exact ⟨rfl, hsame⟩
  · cases sign <;> cases hmark

theorem readsAt_group {inner : Expr} (he : inner.isCanonical = true)
    (h : ReadsAt sql (·.isCanonical = true) Follows inner) :
    ReadsAt sql IsOperand Ends (group inner) := by
  intro e' he' rest rest' hrest hrest' heq
  obtain halike | ⟨⟨⟩, -⟩ := alike_of_append_eq (e := group inner) ⟨he, rfl⟩ he' heq
  cases halike with | group _ inner' =>
  simp only [sql, String.toList_append, List.append_assoc] at heq
  have hclosed (rest : List Char) : Follows (")".toList ++ rest) := follows_cons (by decide)
  obtain ⟨rfl, hsame⟩ :=
    h inner' he'.1 _ _ (hclosed rest) (hclosed rest') (List.append_cancel_left heq)
  exact ⟨rfl, List.append_cancel_left hsame⟩

theorem ends_infixed (op : BinaryOp) (rest : List Char) : Ends (op.infixed.toList ++ rest) := by
  intro c hc
  obtain rfl : ' ' = c := by simpa [BinaryOp.infixed] using hc
  exact List.mem_cons_self

theorem toList_sql_binary (left right : Expr) (op : BinaryOp) (rest : List Char) :
    (binary left op right).sql.toList ++ rest =
      left.sql.toList ++ (op.infixed.toList ++ (right.sql.toList ++ rest)) := by
  simp [sql, BinaryOp.infixed]

theorem isOperand_of_binary {left right : Expr} {op : BinaryOp}
    (h : (binary left op right).isCanonical = true) : left.IsOperand ∧ right.IsOperand := by
  simp only [isCanonical, Bool.and_eq_true, Bool.not_eq_true'] at h
  exact ⟨⟨h.1.2, h.1.1.1⟩, h.2, h.1.1.2⟩

/-- An operand that no operator follows is a whole expression. -/
theorem readsAt_of_operand (h : ReadsAt sql IsOperand Ends e) :
    ReadsAt sql (·.isCanonical = true) Follows e := by
  intro e' he' rest rest' hrest hrest' heq
  cases hbinary : e'.isBinary with
  | false => exact h e' ⟨he', hbinary⟩ _ _ hrest.1 hrest'.1 heq
  | true =>
    cases e' with
    | binary left op right =>
      rw [toList_sql_binary] at heq
      obtain ⟨-, rfl⟩ := h left (isOperand_of_binary he').1 _ _ hrest.1 (ends_infixed op _) heq
      exact absurd (List.prefix_append _ _) (hrest.2 op)
    | _ => cases hbinary

theorem readsAt_binary {left right : Expr} {op : BinaryOp}
    (hleft : ReadsAt sql IsOperand Ends left) (hright : ReadsAt sql IsOperand Ends right) :
    ReadsAt sql (·.isCanonical = true) Follows (binary left op right) := by
  intro e' he' rest rest' hrest hrest' heq
  rw [toList_sql_binary] at heq
  cases hbinary : e'.isBinary with
  | false =>
    obtain ⟨-, rfl⟩ := hleft e' ⟨he', hbinary⟩ _ _ (ends_infixed op _) hrest'.1 heq
    exact absurd (List.prefix_append _ _) (hrest'.2 op)
  | true =>
    cases e' with
    | binary left' op' right' =>
      rw [toList_sql_binary] at heq
      obtain ⟨hl, hr⟩ := isOperand_of_binary he'
      obtain ⟨rfl, hop⟩ := hleft left' hl _ _ (ends_infixed op _) (ends_infixed op' _) heq
      obtain ⟨rfl, hlast⟩ := BinaryOp.reads_infixed op trivial op' trivial _ _ trivial trivial hop
      obtain ⟨rfl, hsame⟩ := hright right' hr _ _ hrest.1 hrest'.1 hlast
      exact ⟨rfl, hsame⟩
    | _ => cases hbinary

/-- Operands can be read back before an operator, and all canonical expressions where none
follows. -/
theorem readsAt (he : e.isCanonical = true) :
    (e.isBinary = false → ReadsAt sql IsOperand Ends e) ∧
      ReadsAt sql (·.isCanonical = true) Follows e := by
  have both {e : Expr} (h : ReadsAt sql IsOperand Ends e) :
      (e.isBinary = false → ReadsAt sql IsOperand Ends e) ∧
        ReadsAt sql (·.isCanonical = true) Follows e :=
    ⟨fun _ => h, readsAt_of_operand h⟩
  induction e with
  | column name => exact both (readsAt_word ⟨he, rfl⟩ rfl)
  | literal v =>
    cases v with
    | number n => exact both (readsAt_word ⟨he, rfl⟩ rfl)
    | bool b => exact both (readsAt_word ⟨he, rfl⟩ rfl)
    | string s => exact both (readsAt_string s)
  | wildcard => exact both readsAt_wildcard
  | binary left op right ihl ihr =>
    obtain ⟨hl, hr⟩ := isOperand_of_binary he
    exact ⟨nofun, readsAt_binary ((ihl hl.1).1 hl.2) ((ihr hr.1).1 hr.2)⟩
  | signed sign operand ih =>
    have hoperand := isOperand_of_signed ⟨he, rfl⟩
    exact both (readsAt_signed ⟨he, rfl⟩ ((ih hoperand.1).1 hoperand.2))
  | group inner ih => exact both (readsAt_group he (ih he).2)

theorem reads_sql : Reads sql (·.isCanonical = true) Follows := fun _ he => (readsAt he).2

theorem mark?_notMem {c : Char} (h : e.mark? = some c) : c ∉ [' ', ')'] := by
  rcases e with _ | (_ | _ | _) | _ | _ | ⟨_ | _⟩ | _ <;> cases h <;> decide

theorem IsOperand.starts (he : e.IsOperand) : Starts e.sql := by
  obtain ⟨c, rest, hsql, hmark⟩ := exists_head he
  refine ⟨c, rest, hsql, ?_⟩
  split at hmark
  · next hc => exact notMem_of_isNameChar hc
  · exact mark?_notMem hmark

theorem starts_sql (he : e.isCanonical = true) : Starts e.sql := by
  cases hbinary : e.isBinary with
  | false => exact IsOperand.starts ⟨he, hbinary⟩
  | true =>
    cases e with
    | binary left op right =>
      simp only [sql, String.append_assoc]
      exact (isOperand_of_binary he).1.starts.append _
    | _ => cases hbinary

end Expr

end Tabular
