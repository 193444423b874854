import AuditChain.Json.Decoder
import AuditChain.Proofs.Json.Scalars
import AuditChain.Proofs.Time.ReadBack

/-!
# Values written and read

A value is written compactly or with one item or member a line, at some depth within another value.
A decoder *reads it back* if it does so in either layout, at every depth, whatever space stands in
front and whatever may follow it.  That is what the decoder of a part must do for the decoder of the
whole: it leaves what follows its value, and is not led further by it.

## Main definitions

* `Json.Follows` — what may follow a value within a text.
* `Json.ReadsBack` — a decoder reads a value back.
* `Json.Opens` — a value is something, and no end of a list.
* `Json.Survives` — a value is decoded from a whole text, in either layout.

## Main results

* `readsBack_text`, `readsBack_instant`, `readsBack_word` — simple values.
* `readsBack_nullable` — **something is told from nothing**.
* `readsBack_list` — **a list is read back if its items are**.
* `ReadsBack.survives` — **what is read back is decoded from a whole text**.
-/

namespace AuditChain.Json

open Text

variable {α : Type}

/-! ### Space and marks -/

/-- What may follow a value within a text: nothing, space, a comma, or what closes a list or a
record. -/
def Follows (rest : List Char) : Prop :=
  ∀ c ∈ rest.head?, isSpace c = true ∨ c = ',' ∨ c = ']' ∨ c = '\x7d'

/-- Nothing but space. -/
def IsBlank (s : List Char) : Prop :=
  ∀ c ∈ s, isSpace c = true

theorem isSpace_cases {c : Char} (h : isSpace c = true) :
    c = ' ' ∨ c = '\n' ∨ c = '\t' ∨ c = '\r' := by
  simpa [isSpace, or_assoc] using h

theorem isSpace_of_isDigit {c : Char} (h : isDigit c = true) : isSpace c = false := by
  rw [← Bool.not_eq_true]
  intro hspace
  rcases isSpace_cases hspace with rfl | rfl | rfl | rfl <;> exact absurd h (by decide)

theorem follows_nil : Follows [] := fun _ h => by cases h

theorem follows_comma (s : List Char) : Follows (',' :: s) := by
  rintro c ⟨⟩
  exact .inr (.inl rfl)

/-- Space follows a value if what comes after the space does. -/
theorem IsBlank.follows {blanks rest : List Char} (h : IsBlank blanks) (hrest : Follows rest) :
    Follows (blanks ++ rest) := by
  cases blanks with
  | nil => exact hrest
  | cons b blanks =>
    rintro c ⟨⟩
    exact .inl (h b List.mem_cons_self)

/-- No number goes on with what may follow a value. -/
theorem Follows.endsNumber {rest : List Char} (h : Follows rest) : EndsNumber rest := by
  intro c hc
  rcases h c hc with hspace | rfl | rfl | rfl
  · rcases isSpace_cases hspace with rfl | rfl | rfl | rfl <;> decide
  · decide
  · decide
  · decide

theorem isBlank_nil : IsBlank [] := fun _ h => absurd h List.not_mem_nil

theorem isBlank_lineBreak (pretty : Bool) (depth : Nat) :
    IsBlank (Value.lineBreak pretty depth) := by
  intro c hc
  cases pretty with
  | false => exact absurd hc List.not_mem_nil
  | true =>
    rcases List.mem_cons.mp hc with rfl | hc
    · rfl
    · rw [(List.mem_replicate.mp hc).2]
      rfl

/-- A colon, and what there is of space after it. -/
theorem colon_eq (pretty : Bool) : ∃ gap, IsBlank gap ∧ Value.colon pretty = ':' :: gap := by
  cases pretty with
  | false => exact ⟨[], isBlank_nil, rfl⟩
  | true =>
    refine ⟨[' '], ?_, rfl⟩
    intro c hc
    rw [List.mem_singleton.mp hc]
    rfl

theorem skipSpace_append {blanks : List Char} (h : IsBlank blanks) {c : Char}
    (hc : isSpace c = false) (s : List Char) : skipSpace (blanks ++ c :: s) = c :: s := by
  rw [skipSpace, List.dropWhile_append_of_pos h, List.dropWhile_cons_of_neg (by simp [hc])]

theorem skipSpace_cons {c : Char} (hc : isSpace c = false) (s : List Char) :
    skipSpace (c :: s) = c :: s :=
  skipSpace_append isBlank_nil hc s

theorem demandMark_append {blanks : List Char} (h : IsBlank blanks) {mark : Char}
    (hmark : isSpace mark = false) (s : List Char) :
    demandMark mark (blanks ++ mark :: s) = .ok s := by
  rw [demandMark, skipSpace_append h hmark]
  exact if_pos rfl

theorem demandMark_cons {mark : Char} (hmark : isSpace mark = false) (s : List Char) :
    demandMark mark (mark :: s) = .ok s :=
  demandMark_append isBlank_nil hmark s

/-! ### Simple values -/

/-- The decoder reads the value back as `a`: in either layout, at every depth, whatever space stands
in front and whatever may follow. -/
def ReadsBack (d : Decoder α) (v : Value) (a : α) : Prop :=
  ∀ (pretty : Bool) (depth : Nat) (blanks rest : List Char), IsBlank blanks → Follows rest →
    d (blanks ++ (v.chars pretty depth ++ rest)) = .ok (a, rest)

/-- What is read back may be put into something else. -/
theorem ReadsBack.map {β : Type} {d : Decoder α} {v : Value} {a : α} (h : ReadsBack d v a)
    (f : α → β) : ReadsBack (fun s => (d s).map fun (a, s) => (f a, s)) v (f a) := by
  intro pretty depth blanks rest hblanks hrest
  simp only [h pretty depth blanks rest hblanks hrest]
  rfl

theorem readText_quoted (expected s : String) {blanks : List Char} (hblanks : IsBlank blanks)
    (rest : List Char) : readText expected (blanks ++ (quoted s ++ rest)) = .ok (s, rest) := by
  rw [readText, quoted_append, skipSpace_append hblanks (by decide)]
  exact congrArg lift (readQuoted_quoted s rest)

/-- Every text is read back. -/
theorem readsBack_text (s : String) : ReadsBack text (.text s) s :=
  fun _ _ _ rest hblanks _ => readText_quoted "a string" s hblanks rest

/-- Every instant is read back from its compact text, as it is shown. -/
theorem readsBack_instant (t : Timestamp) : ReadsBack instant (.text t.compact) t.shown := by
  intro pretty depth blanks rest hblanks _
  have hvalue : instantOfText t.compact = .ok t.shown :=
    congrArg (Except.mapError Misfit.instant) t.readLenient_compact
  rw [instant, Value.chars, readText_quoted expectedInstant t.compact hblanks rest]
  simp only [bind, Except.bind, hvalue]
  rfl

theorem text_natural (n : UInt64) : (Number.natural n).text.toList = natural n.toNat := by
  rw [Number.text, Nat.toString_eq_ofList_toDigits, String.toList_ofList]
  rfl

/-- Every word of 64 bits is read back. -/
theorem readsBack_word (n : UInt64) : ReadsBack word (.word n) n := by
  intro pretty depth blanks rest hblanks hrest
  have hread := readNumber_natural n hrest.endsNumber
  obtain ⟨c, digits, hhead, hc⟩ := exists_natural_eq_cons n.toNat
  rw [hhead, List.cons_append] at hread
  rw [Value.word, Value.chars, text_natural, hhead, word, List.cons_append,
    skipSpace_append hblanks (isSpace_of_isDigit hc)]
  simp only [hc, or_true, if_true, hread, lift, bind, Except.bind, wordOf]
  rfl

/-- The value is something: its text begins with a character that neither is space, nor closes a
list, nor begins the word for nothing. -/
def Opens (v : Value) : Prop :=
  ∀ pretty depth, ∃ c s, v.chars pretty depth = c :: s ∧ isSpace c = false ∧ c ≠ ']' ∧ c ≠ 'n'

theorem opens_text (s : String) : Opens (.text s) :=
  fun _ _ => ⟨'"', _, rfl, by decide⟩

theorem opens_word (n : UInt64) : Opens (.word n) := by
  intro pretty depth
  obtain ⟨c, digits, hhead, hc⟩ := exists_natural_eq_cons n.toNat
  refine ⟨c, digits, ?_, isSpace_of_isDigit hc, ?_, ?_⟩
  · rw [Value.word, Value.chars, text_natural, hhead]
  · rintro rfl
    exact absurd hc (by decide)
  · rintro rfl
    exact absurd hc (by decide)

theorem opens_record (members : List (String × Value)) : Opens (.record members) := by
  intro pretty depth
  cases members with
  | nil => exact ⟨'\x7b', _, rfl, by decide⟩
  | cons m members => exact ⟨'\x7b', _, rfl, by decide⟩

/-- **Where there may be nothing, nothing is read back, and so is something**: no text and no number
begins like the word for nothing. -/
theorem readsBack_nullable {d : Decoder α} {f : α → Value} (h : ∀ a, ReadsBack d (f a) a)
    (hopens : ∀ a, Opens (f a)) (o : Option α) :
    ReadsBack (nullable d) (Value.optional f o) o := by
  intro pretty depth blanks rest hblanks hrest
  cases o with
  | none =>
    have hword : "null".toList = 'n' :: "ull".toList := rfl
    rw [Value.optional, Value.chars, nullable, hword, List.cons_append,
      skipSpace_append hblanks (by decide)]
    rfl
  | some a =>
    obtain ⟨c, s, hchars, hspace, -, hnull⟩ := hopens a pretty depth
    have hread := h a pretty depth [] rest isBlank_nil hrest
    rw [List.nil_append, hchars] at hread
    rw [Value.optional, nullable, hchars, List.cons_append, skipSpace_append hblanks hspace]
    split
    · rename_i heq
      exact absurd (List.cons.inj heq).1 hnull
    · rw [← List.cons_append, hread]
      rfl

/-! ### Lists -/

theorem nextItem_close {blanks : List Char} (h : IsBlank blanks) (first : Bool) (rest : List Char) :
    nextItem first (blanks ++ ']' :: rest) = .ok none := by
  simp only [nextItem, skipSpace_append h (show isSpace ']' = false from rfl)]

/-- The first item stands after space. -/
theorem nextItem_first {blanks : List Char} (h : IsBlank blanks) {c : Char}
    (hspace : isSpace c = false) (hclose : c ≠ ']') (s : List Char) :
    nextItem true (blanks ++ c :: s) = .ok (some (c :: s)) := by
  rw [nextItem, skipSpace_append h hspace]
  split
  · contradiction
  · rename_i heq
    exact absurd (List.cons.inj heq).1 hclose
  · rename_i heq
    rw [if_pos rfl, heq]

/-- The others stand after a comma and space. -/
theorem nextItem_comma {blanks : List Char} (h : IsBlank blanks) {c : Char}
    (hspace : isSpace c = false) (hclose : c ≠ ']') (s : List Char) :
    nextItem false (',' :: (blanks ++ c :: s)) = .ok (some (c :: s)) := by
  rw [nextItem, skipSpace_cons (by decide)]
  split
  · contradiction
  · rename_i heq
    exact absurd (List.cons.inj heq).1 (by decide)
  · rename_i heq
    obtain ⟨rfl, rfl⟩ := List.cons.inj heq
    rw [if_neg Bool.false_ne_true, if_pos rfl, skipSpace_append h hspace]
    split
    · contradiction
    · rename_i heq
      exact absurd (List.cons.inj heq).1 hclose
    · rfl

/-- The items after the first one may follow it. -/
theorem follows_itemChars (pretty : Bool) (depth : Nat) (items : List Value) {rest : List Char}
    (hrest : Follows rest) : Follows (Value.itemChars pretty depth items ++ rest) := by
  cases items with
  | nil => exact hrest
  | cons x xs => exact follows_comma _

/-- There are no more items than characters of them. -/
theorem length_le_itemChars (pretty : Bool) (depth : Nat) (items : List Value) :
    items.length ≤ (Value.itemChars pretty depth items).length := by
  induction items with
  | nil => exact Nat.zero_le _
  | cons x xs ih =>
    simp only [Value.itemChars, List.length_cons, List.length_append]
    omega

/-- What closes a list may follow its items. -/
theorem follows_close {blanks : List Char} (h : IsBlank blanks) (rest : List Char) :
    Follows (blanks ++ ']' :: rest) := by
  refine h.follows ?_
  rintro c ⟨⟩
  exact .inr (.inr (.inl rfl))

section Items

variable {β : Type} {d : Decoder β} {f : α → Value} {g : α → β}

/-- One item is read, if the reader finds its start. -/
theorem readItems_step {a : α} (h : ReadsBack d (f a) (g a)) {pretty first : Bool}
    {depth fuel : Nat} {s rest : List Char} (hrest : Follows rest)
    (hnext : nextItem first s = .ok (some ((f a).chars pretty depth ++ rest))) :
    readItems d (fuel + 1) first s =
      (readItems d fuel false rest).map fun (bs, s) => (g a :: bs, s) := by
  have hread := h pretty depth [] rest isBlank_nil hrest
  rw [List.nil_append] at hread
  rw [readItems, hnext]
  simp only [lift, bind, Except.bind, hread]
  cases readItems d fuel false rest <;> rfl

/-- What closes a list is read as its end. -/
theorem readItems_close (d : Decoder β) (fuel : Nat) (first : Bool) {blanks : List Char}
    (h : IsBlank blanks) (rest : List Char) :
    readItems d (fuel + 1) first (blanks ++ ']' :: rest) = .ok ([], rest) := by
  have hmark := demandMark_append h (show isSpace ']' = false from rfl) rest
  rw [readItems, nextItem_close h]
  simp only [lift, bind, Except.bind, hmark]
  rfl

/-- The items after the first one are read, if there is fuel for all of them. -/
theorem readItems_itemChars (pretty : Bool) (depth : Nat) {items : List α}
    (h : ∀ a ∈ items, ReadsBack d (f a) (g a)) (hopens : ∀ a ∈ items, Opens (f a)) {fuel : Nat}
    (hfuel : items.length < fuel) {blanks : List Char} (hblanks : IsBlank blanks)
    (rest : List Char) :
    readItems d fuel false
      (Value.itemChars pretty depth (items.map f) ++ (blanks ++ ']' :: rest)) =
      .ok (items.map g, rest) := by
  induction items generalizing fuel with
  | nil =>
    obtain ⟨fuel, rfl⟩ := Nat.exists_eq_succ_of_ne_zero (Nat.ne_of_gt hfuel)
    exact readItems_close d fuel false hblanks rest
  | cons a items ih =>
    obtain ⟨fuel, rfl⟩ := Nat.exists_eq_succ_of_ne_zero (Nat.ne_of_gt (Nat.zero_lt_of_lt hfuel))
    have hhead := h a List.mem_cons_self
    obtain ⟨c, s, hchars, hspace, hclose, -⟩ := hopens a List.mem_cons_self pretty depth
    have htail := ih (fun b hb => h b (List.mem_cons_of_mem a hb))
      (fun b hb => hopens b (List.mem_cons_of_mem a hb)) (Nat.lt_of_succ_lt_succ hfuel)
    have hfollows := follows_itemChars pretty depth (items.map f) (follows_close hblanks rest)
    have hnext := nextItem_comma (isBlank_lineBreak pretty depth) hspace hclose
      (s ++ (Value.itemChars pretty depth (items.map f) ++ (blanks ++ ']' :: rest)))
    simp only [← List.cons_append, ← hchars] at hnext
    rw [List.map_cons, Value.itemChars]
    simp only [List.cons_append, List.append_assoc] at hnext ⊢
    rw [readItems_step hhead hfollows hnext, htail]
    rfl

/-- **A list is read back if its items are**, as what they are read back as. -/
theorem readsBack_list {items : List α} (h : ∀ a ∈ items, ReadsBack d (f a) (g a))
    (hopens : ∀ a ∈ items, Opens (f a)) :
    ReadsBack (list d) (.list (items.map f)) (items.map g) := by
  intro pretty depth before rest hbefore _
  cases items with
  | nil =>
    have hclose := readItems_close d (rest.length + 1) true isBlank_nil rest
    simp only [List.map_nil, Value.chars, list, List.cons_append,
      skipSpace_append hbefore (show isSpace '[' = false from rfl)]
    exact hclose
  | cons a items =>
    obtain ⟨c, s, hchars, hspace, hclose, -⟩ := hopens a List.mem_cons_self pretty (depth + 1)
    generalize hmore : Value.itemChars pretty (depth + 1) (items.map f) ++
      (Value.lineBreak pretty depth ++ ']' :: rest) = more
    have hfollows : Follows more := by
      rw [← hmore]
      exact follows_itemChars _ _ _ (follows_close (isBlank_lineBreak pretty depth) rest)
    have hnext := nextItem_first (isBlank_lineBreak pretty (depth + 1)) hspace hclose (s ++ more)
    rw [← List.cons_append, ← hchars] at hnext
    generalize htext : Value.lineBreak pretty (depth + 1) ++
      ((f a).chars pretty (depth + 1) ++ more) = inner at hnext
    -- every item takes a character at least, so the length of the text is fuel enough
    have hfuel : items.length < inner.length := by
      have hitems := length_le_itemChars pretty (depth + 1) (items.map f)
      rw [List.length_map] at hitems
      rw [← htext, hchars, ← hmore]
      simp only [List.length_append, List.length_cons]
      omega
    have htail := readItems_itemChars pretty (depth + 1)
      (fun b hb => h b (List.mem_cons_of_mem a hb))
      (fun b hb => hopens b (List.mem_cons_of_mem a hb)) hfuel
      (isBlank_lineBreak pretty depth) rest
    have hread : readItems d (inner.length + 1) true inner = .ok ((a :: items).map g, rest) := by
      rw [readItems_step (h a List.mem_cons_self) hfollows hnext, ← hmore, htail]
      rfl
    have hwhole : (Value.list ((a :: items).map f)).chars pretty depth ++ rest = '[' :: inner := by
      rw [List.map_cons, Value.chars, ← htext, ← hmore]
      simp only [List.cons_append, List.append_assoc, List.nil_append]
    rw [hwhole, list, skipSpace_append hbefore (by decide)]
    exact hread

end Items

/-! ### Whole texts -/

/-- The value `a` is decoded from its JSON form, in either layout. -/
def Survives (d : Decoder α) (v : Value) (a : α) : Prop :=
  decode d v.compact = .ok a ∧ decode d v.pretty = .ok a

/-- Nothing else is decoded then. -/
theorem Survives.iff {d : Decoder α} {v : Value} {a b : α} (h : Survives d v b) :
    Survives d v a ↔ b = a := by
  constructor
  · intro ha
    exact Except.ok.inj (h.1.symm.trans ha.1)
  · rintro rfl
    exact h

/-- **What is read back is decoded from a whole text.** -/
theorem ReadsBack.survives {d : Decoder α} {v : Value} {a : α} (h : ReadsBack d v a) :
    Survives d v a := by
  have hchars : ∀ pretty, d (v.chars pretty 0) = .ok (a, []) := by
    intro pretty
    have hread := h pretty 0 [] [] isBlank_nil follows_nil
    rwa [List.nil_append, List.append_nil] at hread
  constructor
  · rw [decode, Value.compact, String.toList_ofList, hchars]
    rfl
  · rw [decode, Value.pretty, String.toList_ofList, hchars]
    rfl

end AuditChain.Json
