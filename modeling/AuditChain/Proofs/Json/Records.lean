import AuditChain.Proofs.Json.Decoders
import AuditChain.Proofs.Store.Window

/-!
# Records and alternatives written and read

A record is read member by member into a draft.  Its members *fill* the slots of the draft if they
are those of the slots, in their order, and the value of each is read back: then the draft is what
the values have made of it, one after the other.  The reader looks each name up among all slots, so
no two slots may have the same name; and each must still be empty when its member comes.

## Main definitions

* `Json.Fills` — the members of a record fill the slots of a draft, one after the other.
* `Json.Distinct` — no two slots, or no two alternatives, have the same name.

## Main results

* `readsBack_record` — **a record is read back if its members fill the slots**.
* `readsBack_bare`, `readsBack_carrying` — an alternative is read back from its name, with what it
  carries.
-/

namespace AuditChain.Json

variable {α δ : Type}

/-! ### Names and braces -/

theorem nextMember_close {blanks : List Char} (h : IsBlank blanks) (first : Bool)
    (rest : List Char) : nextMember first (blanks ++ '\x7d' :: rest) = .ok none := by
  simp only [nextMember, skipSpace_append h (show isSpace '\x7d' = false from rfl)]

/-- The name of the first member stands after space. -/
theorem nextMember_first {blanks : List Char} (h : IsBlank blanks) (s : List Char) :
    nextMember true (blanks ++ '"' :: s) = .ok (some s) := by
  rw [nextMember, skipSpace_append h (by decide)]
  exact if_pos rfl

/-- Those of the others stand after a comma and space. -/
theorem nextMember_comma {blanks : List Char} (h : IsBlank blanks) (s : List Char) :
    nextMember false (',' :: (blanks ++ '"' :: s)) = .ok (some s) := by
  have hname : skipSpace (blanks ++ '"' :: s) = '"' :: s := skipSpace_append h (by decide) s
  rw [nextMember, skipSpace_cons (by decide)]
  split
  · contradiction
  · rename_i heq
    exact absurd (List.cons.inj heq).1 (by decide)
  · rename_i heq
    obtain ⟨rfl, rfl⟩ := List.cons.inj heq
    simp only [Bool.false_eq_true, if_false, if_true, hname]

/-- The members after the first one may follow it. -/
theorem follows_memberChars (pretty : Bool) (depth : Nat) (members : List (String × Value))
    {rest : List Char} (hrest : Follows rest) :
    Follows (Value.memberChars pretty depth members ++ rest) := by
  cases members with
  | nil => exact hrest
  | cons m members => exact follows_comma _

/-- There are no more members than characters of them. -/
theorem length_le_memberChars (pretty : Bool) (depth : Nat) (members : List (String × Value)) :
    members.length ≤ (Value.memberChars pretty depth members).length := by
  induction members with
  | nil => exact Nat.zero_le _
  | cons m members ih =>
    simp only [Value.memberChars, List.length_cons, List.length_append]
    omega

/-- What closes a record may follow its members. -/
theorem follows_brace {blanks : List Char} (h : IsBlank blanks) (rest : List Char) :
    Follows (blanks ++ '\x7d' :: rest) := by
  refine h.follows ?_
  rintro c ⟨⟩
  exact .inr (.inr (.inr rfl))

/-! ### Filling a draft -/

/-- The members are those of the slots, in their order, and each fills its slot: what its value is
read back as is the draft for the members that come after it. -/
inductive Fills : List (Slot δ) → δ → List (String × Value) → δ → Prop
  /-- Nothing is left to be filled. -/
  | nil (draft : δ) : Fills [] draft [] draft
  /-- A member fills the first slot, and the others fill the others. -/
  | cons {slot : Slot δ} {slots : List (Slot δ)} {draft next last : δ} {v : Value}
      {members : List (String × Value)} (hempty : slot.isFilled draft = false)
      (hread : ReadsBack (slot.fill draft) v next) (hrest : Fills slots next members last) :
      Fills (slot :: slots) draft ((slot.name, v) :: members) last

/-- A member that its decoder reads back fills its slot. -/
theorem Fills.of {name : String} {get : δ → Option α} {set : δ → Option α → δ} {d : Decoder α}
    {v : Value} {a : α} {slots : List (Slot δ)} {draft last : δ} {members : List (String × Value)}
    (hread : ReadsBack d v a) (hempty : get draft = none)
    (hrest : Fills slots (set draft (some a)) members last) :
    Fills (.of name get set d :: slots) draft ((name, v) :: members) last := by
  have hunfilled : (Slot.of name get set d).isFilled draft = false := by
    show (get draft).isSome = false
    rw [hempty]
    rfl
  exact .cons hunfilled (hread.map fun a => set draft (some a)) hrest

/-! ### Reading members -/

/-- No two have the same name. -/
def Distinct {β : Type} (name : β → String) (xs : List β) : Prop :=
  xs.Pairwise fun x y => name x ≠ name y

instance {β : Type} (name : β → String) (xs : List β) : Decidable (Distinct name xs) :=
  inferInstanceAs (Decidable (List.Pairwise _ xs))

/-- Each is found by its name then. -/
theorem Distinct.find? {β : Type} {name : β → String} {xs : List β} (hnames : Distinct name xs)
    {x : β} (h : x ∈ xs) : xs.find? (fun y => name y == name x) = some x := by
  rw [find?_eq_some_iff_of_unique, beq_iff_eq]
  · exact ⟨h, rfl⟩
  · intro y hy z hz hyx hzx
    rw [beq_iff_eq] at hyx hzx
    exact eq_of_pairwise_ne hnames hy hz (hyx.trans hzx.symm)

/-- A value is read after the colon that stands in front of it. -/
theorem ReadsBack.after_colon {d : Decoder α} {v : Value} {a : α} (h : ReadsBack d v a)
    (pretty : Bool) (depth : Nat) {rest : List Char} (hrest : Follows rest) :
    ∃ s, demandMark ':' (Value.colon pretty ++ (v.chars pretty depth ++ rest)) = .ok s ∧
      d s = .ok (a, rest) := by
  obtain ⟨gap, hgap, hcolon⟩ := colon_eq pretty
  refine ⟨_, ?_, h pretty depth gap rest hgap hrest⟩
  rw [hcolon]
  exact demandMark_cons (by decide) _

section Members

variable {all : List (Slot δ)}

/-- One member is read into its slot. -/
theorem readMember_of_mem (hnames : Distinct Slot.name all) {slot : Slot δ} (h : slot ∈ all)
    {draft next : δ} {v : Value} (hempty : slot.isFilled draft = false)
    (hread : ReadsBack (slot.fill draft) v next) (pretty : Bool) (depth : Nat) {rest : List Char}
    (hrest : Follows rest) :
    readMember all draft (slot.name.toList.flatMap quotedChar ++
      '"' :: (Value.colon pretty ++ (v.chars pretty depth ++ rest))) = .ok (next, rest) := by
  obtain ⟨s, hcolon, hvalue⟩ := hread.after_colon pretty depth hrest
  rw [readMember, readQuoted_quoted]
  simp only [lift, bind, Except.bind, hnames.find? h, hempty, Bool.false_eq_true, if_false, hcolon,
    hvalue]

/-- One member is read, if the reader finds the start of its name. -/
theorem readMembers_step {first : Bool} {fuel : Nat} {draft next : δ}
    {s inner rest : List Char} (hnext : nextMember first s = .ok (some inner))
    (hread : readMember all draft inner = .ok (next, rest)) :
    readMembers all (fuel + 1) first draft s = readMembers all fuel false next rest := by
  rw [readMembers, hnext]
  simp only [lift, bind, Except.bind, hread]

/-- What closes a record is left where it is. -/
theorem readMembers_close (fuel : Nat) (first : Bool) (draft : δ) {blanks : List Char}
    (h : IsBlank blanks) (rest : List Char) :
    readMembers all (fuel + 1) first draft (blanks ++ '\x7d' :: rest) =
      .ok (draft, blanks ++ '\x7d' :: rest) := by
  rw [readMembers, nextMember_close h]
  rfl

/-- The members after the first one are read into their slots, if there is fuel for all of them. -/
theorem readMembers_memberChars (hnames : Distinct Slot.name all) (pretty : Bool) (depth : Nat)
    {slots : List (Slot δ)} {draft last : δ} {members : List (String × Value)}
    (hfills : Fills slots draft members last) (hslots : ∀ slot ∈ slots, slot ∈ all) {fuel : Nat}
    (hfuel : members.length < fuel) {blanks : List Char} (hblanks : IsBlank blanks)
    (rest : List Char) :
    readMembers all fuel false draft
      (Value.memberChars pretty depth members ++ (blanks ++ '\x7d' :: rest)) =
      .ok (last, blanks ++ '\x7d' :: rest) := by
  induction hfills generalizing fuel with
  | nil draft =>
    obtain ⟨fuel, rfl⟩ := Nat.exists_eq_succ_of_ne_zero (Nat.ne_of_gt hfuel)
    exact readMembers_close fuel false draft hblanks rest
  | @cons slot slots draft next last v members hempty hread _ ih =>
    obtain ⟨fuel, rfl⟩ := Nat.exists_eq_succ_of_ne_zero (Nat.ne_of_gt (Nat.zero_lt_of_lt hfuel))
    have htail := ih (fun s hs => hslots s (List.mem_cons_of_mem slot hs))
      (Nat.lt_of_succ_lt_succ hfuel)
    have hfollows := follows_memberChars pretty depth members (follows_brace hblanks rest)
    have hmember := readMember_of_mem hnames (hslots slot List.mem_cons_self) hempty hread pretty
      depth hfollows
    have hnext := nextMember_comma (isBlank_lineBreak pretty depth) (slot.name.toList.flatMap
      quotedChar ++ '"' :: (Value.colon pretty ++ (v.chars pretty depth ++
        (Value.memberChars pretty depth members ++ (blanks ++ '\x7d' :: rest)))))
    rw [← quoted_append] at hnext
    rw [Value.memberChars]
    simp only [List.cons_append, List.append_assoc] at hnext ⊢
    rw [readMembers_step hnext hmember, htail]

/-- A record that fills the slots is written as a brace and a text that is read up to the last
brace. -/
theorem readMembers_record (hnames : Distinct Slot.name all) {draft last : δ}
    {members : List (String × Value)} (hfills : Fills all draft members last) (pretty : Bool)
    (depth : Nat) (rest : List Char) : ∃ inner blanks, IsBlank blanks ∧
      (Value.record members).chars pretty depth ++ rest = '\x7b' :: inner ∧
      readMembers all (inner.length + 1) true draft inner =
        .ok (last, blanks ++ '\x7d' :: rest) := by
  cases hfills with
  | nil => exact ⟨_, [], isBlank_nil, rfl, readMembers_close _ true _ isBlank_nil rest⟩
  | @cons slot slots _ next _ v members hempty hread hrest =>
    have hblanks := isBlank_lineBreak pretty depth
    generalize hmore : Value.memberChars pretty (depth + 1) members ++
      (Value.lineBreak pretty depth ++ '\x7d' :: rest) = more
    have hfollows : Follows more := by
      rw [← hmore]
      exact follows_memberChars _ _ _ (follows_brace hblanks rest)
    have hmember := readMember_of_mem hnames List.mem_cons_self hempty hread pretty (depth + 1)
      hfollows
    have hnext := nextMember_first (isBlank_lineBreak pretty (depth + 1))
      (slot.name.toList.flatMap quotedChar ++
        '"' :: (Value.colon pretty ++ (v.chars pretty (depth + 1) ++ more)))
    rw [← quoted_append] at hnext
    generalize hinner : Value.lineBreak pretty (depth + 1) ++ (quoted slot.name ++
      (Value.colon pretty ++ (v.chars pretty (depth + 1) ++ more))) = inner at hnext
    -- every member takes a character at least, so the length of the text is fuel enough
    have hfuel : members.length < inner.length := by
      have hmembers := length_le_memberChars pretty (depth + 1) members
      rw [← hinner, ← hmore]
      simp only [List.length_append, List.length_cons]
      omega
    have htail := readMembers_memberChars hnames pretty (depth + 1) hrest
      (fun s hs => List.mem_cons_of_mem slot hs) hfuel hblanks rest
    refine ⟨inner, Value.lineBreak pretty depth, hblanks, ?_, ?_⟩
    · rw [Value.chars, ← hinner, ← hmore]
      simp only [List.cons_append, List.append_assoc, List.nil_append]
    · rw [readMembers_step hnext hmember, ← hmore, htail]

end Members

/-- **A record is read back if its members fill the slots**, of which no two have the same name, and
nothing is missing then. -/
theorem readsBack_record {shape : Shape δ α} (hnames : Distinct Slot.name shape.slots) {last : δ}
    {members : List (String × Value)} (hfills : Fills shape.slots shape.empty members last) {a : α}
    (hfinish : shape.finish last = .ok a) : ReadsBack (readShape shape) (.record members) a := by
  intro pretty depth before rest hbefore _
  obtain ⟨inner, blanks, hblanks, hwhole, hread⟩ :=
    readMembers_record hnames hfills pretty depth rest
  have hmark := demandMark_append hblanks (show isSpace '\x7d' = false from rfl) rest
  rw [hwhole, readShape, skipSpace_append hbefore (by decide)]
  simp only [bind, Except.bind, hread, Shape.complete, hfinish, lift, hmark]
  rfl

/-! ### Alternatives -/

section Variants

variable {variants : List (Variant α)} {x : Variant α}

theorem readVariantName_of_mem (hnames : Distinct Variant.name variants) (h : x ∈ variants)
    (rest : List Char) :
    readVariantName variants (x.name.toList.flatMap quotedChar ++ '"' :: rest) = .ok (x, rest) := by
  rw [readVariantName, readQuoted_quoted]
  simp only [lift, bind, Except.bind, hnames.find? h]
  rfl

/-- An alternative that carries nothing is read back from its name. -/
theorem readsBack_bare (hnames : Distinct Variant.name variants) (h : x ∈ variants) {a : α}
    (hbare : x.bare = .ok a) : ReadsBack (readVariant variants) (.text x.name) a := by
  intro pretty depth blanks rest hblanks _
  rw [Value.chars, quoted_append, readVariant, skipSpace_append hblanks (by decide)]
  simp only [readVariantName_of_mem hnames h, bind, Except.bind, hbare]
  rfl

/-- An alternative that carries something is read back if that is. -/
theorem readsBack_carrying (hnames : Distinct Variant.name variants) (h : x ∈ variants)
    {v : Value} {a : α} (hread : ReadsBack x.payload v a) :
    ReadsBack (readVariant variants) (.record [(x.name, v)]) a := by
  intro pretty depth before rest hbefore _
  have hblanks := isBlank_lineBreak pretty depth
  obtain ⟨s, hcolon, hpayload⟩ := hread.after_colon pretty (depth + 1) (follows_brace hblanks rest)
  have hbrace := demandMark_append hblanks (show isSpace '\x7d' = false from rfl) rest
  have hname : ∀ s, skipSpace (Value.lineBreak pretty (depth + 1) ++ '"' :: s) = '"' :: s :=
    skipSpace_append (isBlank_lineBreak pretty (depth + 1)) rfl
  have hwhole : (Value.record [(x.name, v)]).chars pretty depth ++ rest =
      '\x7b' :: (Value.lineBreak pretty (depth + 1) ++ '"' :: (x.name.toList.flatMap quotedChar ++
        '"' :: (Value.colon pretty ++ (v.chars pretty (depth + 1) ++
          (Value.lineBreak pretty depth ++ '\x7d' :: rest))))) := by
    rw [← quoted_append, Value.chars, Value.memberChars]
    simp only [List.cons_append, List.append_assoc, List.nil_append]
  rw [hwhole, readVariant, skipSpace_append hbefore (by decide)]
  simp only [hname, readVariantName_of_mem hnames h, bind, Except.bind, lift, hcolon, hpayload,
    hbrace]
  rfl

end Variants

end AuditChain.Json
