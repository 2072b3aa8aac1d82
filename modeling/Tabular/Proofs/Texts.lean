import Mathlib.Data.List.Basic
import Tabular.Sql.Statement

/-! Texts that can be read back. A text stands at the start of a longer one, and only the longer one
is known: `Reads` says that it can be taken in one way only as a text of a kind and a rest that may
follow. Texts one after another, lists of texts and texts that may be left out can be read back when
their parts can. -/

namespace Tabular.Text

variable {α β : Type} {text : α → String} {P : α → Prop} {Stop Stop' : List Char → Prop}

/-- What begins with the text of `a` and goes on with a rest in `Stop` does not begin with the text
of anything else in `P` and go on with such a rest. -/
def ReadsAt (text : α → String) (P : α → Prop) (Stop : List Char → Prop) (a : α) : Prop :=
  ∀ b, P b → ∀ rest rest', Stop rest → Stop rest' →
    (text a).toList ++ rest = (text b).toList ++ rest' → a = b ∧ rest = rest'

/-- Nothing can be taken in two ways as the text of something in `P` and a rest in `Stop`. -/
def Reads (text : α → String) (P : α → Prop) (Stop : List Char → Prop) : Prop :=
  ∀ a, P a → ReadsAt text P Stop a

/-- What a text has for something optional: a lead and the text of the thing, or nothing. -/
def clause (lead : String) (text : α → String) (o : Option α) : String :=
  o.elim "" fun a => lead ++ text a

namespace Reads

theorem mono {Q : α → Prop} (h : Reads text P Stop) (hP : ∀ a, Q a → P a)
    (hstop : ∀ rest, Stop' rest → Stop rest) : Reads text Q Stop' :=
  fun a ha b hb rest rest' hrest hrest' =>
    h a (hP a ha) b (hP b hb) rest rest' (hstop _ hrest) (hstop _ hrest')

/-- Things that are known from others can be read back when their texts are those of the others. -/
theorem comap {text' : β → String} {Q : β → Prop} {f : β → α} (h : Reads text P Stop)
    (htext : ∀ b, text' b = text (f b)) (hP : ∀ b, Q b → P (f b)) (hinj : Function.Injective f) :
    Reads text' Q Stop := by
  intro a ha b hb rest rest' hrest hrest' heq
  rw [htext a, htext b] at heq
  obtain ⟨hf, hsame⟩ := h _ (hP a ha) _ (hP b hb) _ _ hrest hrest' heq
  exact ⟨hinj hf, hsame⟩

theorem after (lead : String) (h : Reads text P Stop) :
    Reads (fun a => lead ++ text a) P Stop := by
  intro a ha b hb rest rest' hrest hrest' heq
  simp only [String.toList_append, List.append_assoc] at heq
  exact h a ha b hb _ _ hrest hrest' (List.append_cancel_left heq)

theorem before (trail : String) (h : Reads text P Stop)
    (hstop : ∀ rest, Stop (trail.toList ++ rest)) :
    Reads (fun a => text a ++ trail) P fun _ => True := by
  intro a ha b hb rest rest' _ _ heq
  simp only [String.toList_append, List.append_assoc] at heq
  obtain ⟨rfl, hsame⟩ := h a ha b hb _ _ (hstop rest) (hstop rest') heq
  exact ⟨rfl, List.append_cancel_left hsame⟩

/-- One text after another can be read back when the second can follow the first. -/
theorem append {text' : β → String} {Q : β → Prop} (h : Reads text P Stop)
    (h' : Reads text' Q Stop')
    (hstop : ∀ b rest, Q b → Stop' rest → Stop ((text' b).toList ++ rest)) :
    Reads (fun p : α × β => text p.1 ++ text' p.2) (fun p => P p.1 ∧ Q p.2) Stop' := by
  rintro ⟨a, b⟩ ⟨ha, hb⟩ ⟨a', b'⟩ ⟨ha', hb'⟩ rest rest' hrest hrest' heq
  simp only [String.toList_append, List.append_assoc] at heq
  obtain ⟨rfl, hsecond⟩ :=
    h a ha a' ha' _ _ (hstop b rest hb hrest) (hstop b' rest' hb' hrest') heq
  obtain ⟨rfl, hsame⟩ := h' b hb b' hb' _ _ hrest hrest' hsecond
  exact ⟨rfl, hsame⟩

/-- A clause that may be left out can be read back when what follows does not begin like it. -/
theorem clause {lead : String} (h : Reads text P Stop) (hstop : ∀ rest, Stop' rest → Stop rest)
    (hlead : ∀ rest, Stop' rest → ¬lead.toList <+: rest) :
    Reads (Text.clause lead text) (fun o => ∀ a ∈ o, P a) Stop' := by
  have hmissing {a : α} {rest rest' : List Char} (hrest : Stop' rest) :
      rest ≠ (lead ++ text a).toList ++ rest' := by
    rintro rfl
    refine hlead _ hrest ?_
    rw [String.toList_append, List.append_assoc]
    exact List.prefix_append _ _
  rintro (_ | a) ha (_ | b) hb rest rest' hrest hrest' heq
  · exact ⟨rfl, heq⟩
  · exact absurd heq (hmissing hrest)
  · exact absurd heq.symm (hmissing hrest')
  · obtain ⟨rfl, hsame⟩ := h.after lead a (ha a rfl) b (hb b rfl) _ _ (hstop _ hrest)
      (hstop _ hrest') heq
    exact ⟨rfl, hsame⟩

end Reads

/-- The text is empty or begins with one of the given characters. -/
def HeadIn (chars rest : List Char) : Prop := ∀ c ∈ rest.head?, c ∈ chars

theorem headIn_cons {c : Char} {chars : List Char} (hc : c ∈ chars) (rest : List Char) :
    HeadIn chars (c :: rest) := by
  rintro _ ⟨⟩
  exact hc

theorem HeadIn.mono {chars chars' rest : List Char} (h : HeadIn chars rest)
    (hsub : chars ⊆ chars') : HeadIn chars' rest :=
  fun c hc => hsub (h c hc)

/-- What can follow a word or a string. -/
abbrev Ends : List Char → Prop := HeadIn [' ', ',', ')']

/-- What can follow a list. -/
abbrev Closes : List Char → Prop := HeadIn [' ', ')']

/-- What can follow an item of a list. -/
abbrev Separates : List Char → Prop := HeadIn [',', ')']

theorem Closes.ends {rest : List Char} (h : Closes rest) : Ends rest := h.mono (by decide)

theorem Separates.ends {rest : List Char} (h : Separates rest) : Ends rest := h.mono (by decide)

/-! ### Words and quoted strings -/

/-- A letter, a digit or an underscore. -/
def isNameChar (c : Char) : Bool := c.isAlphanum || c == '_'

theorem Ends.isNameChar_eq_false {rest : List Char} (h : Ends rest) :
    ∀ c ∈ rest.head?, isNameChar c = false := by
  intro c hc
  have hmem := h c hc
  simp only [List.mem_cons, List.not_mem_nil, or_false] at hmem
  obtain rfl | rfl | rfl := hmem <;> decide

/-- Where the characters of a kind end, a text is split in one way. -/
theorem eq_of_append_eq {p : Char → Bool} {a b rest rest' : List Char} (ha : ∀ c ∈ a, p c = true)
    (hb : ∀ c ∈ b, p c = true) (hrest : ∀ c ∈ rest.head?, p c = false)
    (hrest' : ∀ c ∈ rest'.head?, p c = false) (h : a ++ rest = b ++ rest') :
    a = b ∧ rest = rest' := by
  induction a generalizing b with
  | nil =>
    cases b with
    | nil => exact ⟨rfl, h⟩
    | cons c b =>
      obtain rfl : rest = c :: (b ++ rest') := h
      have hc := hrest c rfl
      rw [hb c List.mem_cons_self] at hc
      cases hc
  | cons c a ih =>
    cases b with
    | nil =>
      obtain rfl : c :: (a ++ rest) = rest' := h
      have hc := hrest' c rfl
      rw [ha c List.mem_cons_self] at hc
      cases hc
    | cons d b =>
      obtain ⟨rfl, htail⟩ := List.cons.inj h
      obtain ⟨rfl, hsame⟩ := ih (fun c hc => ha c (List.mem_cons_of_mem _ hc))
        (fun c hc => hb c (List.mem_cons_of_mem _ hc)) htail
      exact ⟨rfl, hsame⟩

/-- The string has letters, digits and underscores only. -/
def IsWord (word : String) : Prop := ∀ c ∈ word.toList, isNameChar c = true

instance (word : String) : Decidable (IsWord word) :=
  decidable_of_iff (word.toList.all isNameChar = true) List.all_eq_true

theorem reads_word : Reads id IsWord Ends := by
  intro a ha b hb rest rest' hrest hrest' heq
  obtain ⟨hword, hsame⟩ :=
    eq_of_append_eq ha hb hrest.isNameChar_eq_false hrest'.isNameChar_eq_false heq
  exact ⟨String.toList_inj.mp hword, hsame⟩

theorem isWord_repr (n : Nat) : IsWord n.repr := by
  intro c hc
  rw [Nat.toList_repr] at hc
  simp [isNameChar, Char.isAlphanum, Nat.isDigit_of_mem_toDigits (by decide) (by decide) hc]

theorem injective_repr : Function.Injective Nat.repr := by
  intro m n h
  have hdigits : Nat.toDigits 10 m = Nat.toDigits 10 n := by
    rw [← Nat.toList_repr, h, Nat.toList_repr]
  rw [← Nat.ofDigitChars_ten_toDigits (n := m), hdigits, Nat.ofDigitChars_ten_toDigits]

theorem reads_repr : Reads Nat.repr (fun _ => True) Ends :=
  reads_word.comap (fun _ => rfl) (fun n _ => isWord_repr n) injective_repr

theorem escaped_append_inj {c d : Char} {rest rest' : List Char}
    (h : escaped c ++ rest = escaped d ++ rest') : c = d ∧ rest = rest' := by
  by_cases hc : c = '"' <;> by_cases hd : d = '"'
  · simpa [escaped, hc, hd] using h
  · simp [escaped, hc, hd, Ne.symm hd] at h
  · simp [escaped, hc, hd] at h
  · simpa [escaped, hc, hd] using h

theorem eq_of_escaped_append_eq {s t rest rest' : List Char} (hrest : rest.head? ≠ some '"')
    (hrest' : rest'.head? ≠ some '"')
    (h : s.flatMap escaped ++ '"' :: rest = t.flatMap escaped ++ '"' :: rest') :
    s = t ∧ rest = rest' := by
  -- a mark that closes a string is not followed by another, and one in the string is
  have hclosed (c : Char) (t rest rest' : List Char) (hrest : rest.head? ≠ some '"') :
      '"' :: rest ≠ escaped c ++ t ++ rest' := by
    unfold escaped
    split
    · rintro ⟨⟩
      exact hrest rfl
    · next hc =>
      rintro ⟨⟩
      exact hc rfl
  induction s generalizing t with
  | nil =>
    cases t with
    | nil => exact ⟨rfl, (List.cons.inj h).2⟩
    | cons d t => exact absurd h (hclosed d _ rest _ hrest)
  | cons c s ih =>
    cases t with
    | nil => exact absurd h.symm (hclosed c _ rest' _ hrest')
    | cons d t =>
      simp only [List.flatMap_cons, List.append_assoc] at h
      obtain ⟨rfl, htail⟩ := escaped_append_inj h
      obtain ⟨rfl, hsame⟩ := ih htail
      exact ⟨rfl, hsame⟩

theorem reads_quoted : Reads quoted (fun _ => True) fun rest => rest.head? ≠ some '"' := by
  intro s _ t _ rest rest' hrest hrest' heq
  rw [toList_quoted, toList_quoted] at heq
  simp only [List.cons_append, List.append_assoc, List.cons.injEq, true_and] at heq
  obtain ⟨hs, hsame⟩ := eq_of_escaped_append_eq hrest hrest' heq
  exact ⟨String.toList_inj.mp hs, hsame⟩

/-! ### Lists -/

/-- The first character of a text is none that can follow a list. -/
def Starts (text : String) : Prop := ∃ c rest, text.toList = c :: rest ∧ c ∉ [' ', ')']

theorem Starts.append {s : String} (h : Starts s) (t : String) : Starts (s ++ t) := by
  obtain ⟨c, rest, hs, hc⟩ := h
  exact ⟨c, rest ++ t.toList, by rw [String.toList_append, hs]; rfl, hc⟩

/-- The items of a list after the first, each after a comma. -/
def further (text : α → String) (items : List α) : List Char :=
  items.flatMap fun a => ',' :: ' ' :: (text a).toList

theorem further_cons (text : α → String) (a : α) (items : List α) :
    further text (a :: items) = ',' :: ' ' :: (listed ((a :: items).map text)).toList := by
  induction items generalizing a with
  | nil => simp [listed, further]
  | cons b items ih =>
    have hb := ih b
    simp only [listed, String.toList_intercalate, List.map_cons, List.intercalate_cons_cons]
      at hb ⊢
    rw [further, List.flatMap_cons, ← further, hb]
    simp

theorem eq_of_further_append_eq (h : Reads text P Stop) (hcomma : ∀ rest, Stop (',' :: rest))
    {items items' : List α} (hitems : ∀ a ∈ items, P a) (hitems' : ∀ a ∈ items', P a)
    {rest rest' : List Char} (hrest : Stop rest) (hrest' : Stop rest')
    (hcloses : Closes rest) (hcloses' : Closes rest')
    (heq : further text items ++ rest = further text items' ++ rest') :
    items = items' ∧ rest = rest' := by
  have hstop (items : List α) {rest : List Char} (hrest : Stop rest) :
      Stop (further text items ++ rest) := by
    cases items with
    | nil => exact hrest
    | cons a items => exact hcomma _
  induction items generalizing items' with
  | nil =>
    cases items' with
    | nil => exact ⟨rfl, heq⟩
    | cons b items' =>
      obtain rfl : rest = _ := heq
      exact absurd (hcloses ',' rfl) (by decide)
  | cons a items ih =>
    cases items' with
    | nil =>
      obtain rfl : _ = rest' := heq
      have habsurd := hcloses' ',' rfl
      exact absurd habsurd (by decide)
    | cons b items' =>
      simp only [further, List.flatMap_cons, List.cons_append, List.append_assoc, List.cons.injEq,
        true_and] at heq
      obtain ⟨rfl, htail⟩ := h a (hitems a List.mem_cons_self) b (hitems' b List.mem_cons_self) _ _
        (hstop items hrest) (hstop items' hrest') heq
      obtain ⟨rfl, hsame⟩ := ih (fun a ha => hitems a (List.mem_cons_of_mem _ ha))
        (fun a ha => hitems' a (List.mem_cons_of_mem _ ha)) htail
      exact ⟨rfl, hsame⟩

/-- A list can be read back when its items can, and none of them starts like what follows. -/
theorem Reads.listed (h : Reads text P Stop) (hcomma : ∀ rest, Stop (',' :: rest))
    (hstarts : ∀ a, P a → Starts (text a)) :
    Reads (fun items : List α => Tabular.listed (items.map text)) (fun items => ∀ a ∈ items, P a)
      fun rest => Stop rest ∧ Closes rest := by
  have hne {a : α} {items : List α} {rest rest' : List Char} (ha : P a) (hrest : Closes rest) :
      rest ≠ (Tabular.listed ((a :: items).map text)).toList ++ rest' := by
    rintro rfl
    obtain ⟨c, tail, htext, hc⟩ := hstarts a ha
    refine hc (hrest c ?_)
    obtain ⟨-, hlisted⟩ := List.cons.inj (List.cons.inj (further_cons text a items)).2
    rw [← hlisted, htext]
    rfl
  rintro (_ | ⟨a, items⟩) hitems (_ | ⟨b, items'⟩) hitems' rest rest' hrest hrest' heq
  · exact ⟨rfl, heq⟩
  · exact absurd heq (hne (hitems' b List.mem_cons_self) hrest.2)
  · exact absurd heq.symm (hne (hitems a List.mem_cons_self) hrest'.2)
  · refine eq_of_further_append_eq h hcomma hitems hitems' hrest.1 hrest'.1 hrest.2 hrest'.2 ?_
    rw [further_cons, further_cons, List.cons_append, List.cons_append, heq]
    rfl

/-- A list as something optional, which an empty one is not. -/
def filled? : List α → Option (List α)
  | [] => none
  | a :: items => some (a :: items)

theorem filled?_inj {items items' : List α} (h : filled? items = filled? items') :
    items = items' := by
  cases items <;> cases items' <;> cases h <;> rfl

theorem forall_mem_filled? {items : List α} (h : ∀ a ∈ items, P a) :
    ∀ xs ∈ filled? items, ∀ a ∈ xs, P a := by
  cases items with
  | nil => nofun
  | cons a items =>
    rintro xs ⟨⟩
    exact h

/-! ### Beginnings -/

/-- Nothing, or a text that begins with one of the given. -/
def Opens (leads : List String) (rest : List Char) : Prop :=
  rest = [] ∨ ∃ lead ∈ leads, lead.toList <+: rest

section Opens

variable {leads leads' : List String} {lead : String} {rest : List Char}

theorem Opens.mono (h : Opens leads rest) (hsub : leads ⊆ leads') : Opens leads' rest :=
  h.imp_right fun ⟨l, hl, hprefix⟩ => ⟨l, hsub hl, hprefix⟩

theorem opens_append (lead s : String) (rest : List Char) :
    Opens [lead] ((lead ++ s).toList ++ rest) := by
  refine .inr ⟨lead, List.mem_cons_self, ?_⟩
  rw [String.toList_append, List.append_assoc]
  exact List.prefix_append _ _

theorem Opens.append_clause (o : Option α) (h : Opens leads rest) :
    Opens (lead :: leads) ((clause lead text o).toList ++ rest) := by
  cases o with
  | none =>
    obtain rfl | ⟨l, hl, hprefix⟩ := h
    · exact .inl rfl
    · exact .inr ⟨l, List.mem_cons_of_mem _ hl, hprefix⟩
  | some a => exact (opens_append lead (text a) rest).mono (by simp)

/-- A text does not begin with what differs from all its beginnings. -/
theorem Opens.not_prefix (h : Opens leads rest) (hlead : lead.toList ≠ [])
    (hdiffers : ∀ l ∈ leads, ¬l.toList <+: lead.toList ∧ ¬lead.toList <+: l.toList) :
    ¬lead.toList <+: rest := by
  intro hprefix
  obtain rfl | ⟨l, hl, hl'⟩ := h
  · exact hlead (List.prefix_nil.mp hprefix)
  · obtain hpl | hlp := List.prefix_or_prefix_of_prefix hl' hprefix
    · exact (hdiffers l hl).1 hpl
    · exact (hdiffers l hl).2 hlp

theorem Opens.closes (h : Opens leads rest) (hleads : ∀ l ∈ leads, l.toList.head? = some ' ') :
    Closes rest := by
  obtain rfl | ⟨l, hl, tail, rfl⟩ := h
  · nofun
  · intro c hc
    rw [List.head?_append, hleads l hl] at hc
    obtain rfl : ' ' = c := Option.some.inj hc
    exact List.mem_cons_self

theorem closes_append (hlead : lead.toList.head? = some ' ') (s : String) (rest : List Char) :
    Closes ((lead ++ s).toList ++ rest) :=
  (opens_append lead s rest).closes (by simpa using hlead)

end Opens

/-- What can be read back before the end can be told from its text. -/
theorem Reads.eq_of_text_eq (h : Reads text P (Opens [])) {a b : α} (ha : P a) (hb : P b)
    (heq : text a = text b) : a = b := by
  have hend : Opens [] [] := .inl rfl
  exact (h a ha b hb [] [] hend hend (by rw [heq])).1

end Tabular.Text
