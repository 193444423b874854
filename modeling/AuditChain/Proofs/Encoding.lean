import AuditChain.Proofs.Shown
import AuditChain.Proofs.Text.Octets

/-!
# The canonical encoding is unambiguous

The octets that a hash is taken over tell everything that went into them.  The sequence takes a
fixed number of octets, and each field says where it ends, as long as its length is one that four
octets can tell; so the fields come off one after another, and what is left is the previous hash.
Of the instant they tell what a clock shows: a leap second off the minute is not told from the second
that comes next.

Hence two entries that carry the same hash, each the one that its fields call for, are shown alike —
or the hash function has met two different inputs with one digest.

## Main definitions

* `Event.texts`, `Event.Fits` — the texts that a producer chooses, and a bound on their lengths.
* `Collides` — two inputs of the hash function differ and have one digest.

## Main results

* `encodeField_append_inj` — a field says where it ends.
* `encode_append_inj` — an encoding says where it ends.
* `encoding_unambiguous` — **the octets that are hashed tell sequence, event and previous hash.**
* `encode_stray` — they do not tell a leap second off the minute from the second that comes next.
* `Entry.shown_eq_or_collides` — **entries with one hash are shown alike, unless their inputs
  collide.**
-/

namespace AuditChain

/-! ### Fixed widths -/

theorem bigEndian32_injective {m n : UInt32} (h : bigEndian32 m = bigEndian32 n) : m = n := by
  simp only [bigEndian32, List.cons.injEq, and_true, ← UInt8.toNat_inj, UInt32.toNat_toUInt8,
    UInt32.toNat_shiftRight, Nat.shiftRight_eq_div_pow, UInt32.reduceToNat, Nat.reduceMod,
    Nat.reducePow] at h
  have hm := m.toNat_lt
  have hn := n.toNat_lt
  rw [← UInt32.toNat_inj]
  omega

theorem bigEndian64_injective {m n : UInt64} (h : bigEndian64 m = bigEndian64 n) : m = n := by
  simp only [bigEndian64, List.cons.injEq, and_true, ← UInt8.toNat_inj, UInt64.toNat_toUInt8,
    UInt64.toNat_shiftRight, Nat.shiftRight_eq_div_pow, UInt64.reduceToNat, Nat.reduceMod,
    Nat.reducePow] at h
  have hm := m.toNat_lt
  have hn := n.toNat_lt
  rw [← UInt64.toNat_inj]
  omega

/-! ### Lengths that can be told -/

/-- The field is absent, or four octets can tell its length. -/
def FieldFits (f : Option String) : Prop :=
  ∀ s ∈ f, (Text.utf8 s).length ≤ 4294967295

instance (f : Option String) : Decidable (FieldFits f) :=
  inferInstanceAs (Decidable (∀ s ∈ f, _))

/-- The texts of an event that its producer chooses. -/
def Event.texts (e : Event) : List (Option String) :=
  [some e.dedupKey.text, some e.entityName, some e.entityId, e.oldValues, e.newValues, e.userId,
    e.userEmail, e.correlationId, e.remoteIp, e.userAgent]

/-- The lengths of all texts of an event can be told. -/
def Event.Fits (e : Event) : Prop :=
  ∀ f ∈ e.texts, FieldFits f

instance (e : Event) : Decidable e.Fits :=
  inferInstanceAs (Decidable (∀ f ∈ e.texts, _))

/-- A different length has a different tag. -/
theorem lengthTag_injective {m n : Nat} (hm : m ≤ 4294967295) (hn : n ≤ 4294967295)
    (h : lengthTag m = lengthTag n) : m = n := by
  have htags : (lengthTag m).toNat = (lengthTag n).toNat := congrArg UInt32.toNat h
  rw [lengthTag, lengthTag, Nat.min_eq_left hm, Nat.min_eq_left hn, UInt32.toNat_ofNat_of_lt',
    UInt32.toNat_ofNat_of_lt'] at htags
  · exact htags
  · exact Nat.lt_succ_of_le hn
  · exact Nat.lt_succ_of_le hm

/-- The name of an action and the text of an instant are short, so all fields fit if the texts of
the producer do. -/
theorem Event.Fits.fields {e : Event} (h : e.Fits) : ∀ f ∈ e.fields, FieldFits f := by
  have haction : FieldFits (some e.action.name) := by
    rintro s ⟨⟩
    cases e.action <;> decide +kernel
  have hinstant : FieldFits (some e.occurredAt.canonical) := by
    rintro s ⟨⟩
    have hoctets := Text.length_utf8_ofList_le e.occurredAt.canonicalChars
    have hchars := e.occurredAt.length_canonicalChars_le
    rw [Timestamp.canonical]
    omega
  intro f hf
  by_cases htext : f ∈ e.texts
  · exact h f htext
  · have hother : f = some e.action.name ∨ f = some e.occurredAt.canonical := by
      simp only [Event.fields, Event.texts, List.mem_cons, List.not_mem_nil, or_false] at hf htext
      tauto
    rcases hother with rfl | rfl
    · exact haction
    · exact hinstant

/-! ### Fields come off one after another -/

/-- A field says where it ends: whatever follows it, the field and the rest can be told. -/
theorem encodeField_append_inj {f g : Option String} (hf : FieldFits f) (hg : FieldFits g)
    {xs ys : List UInt8} (h : encodeField f ++ xs = encodeField g ++ ys) : f = g ∧ xs = ys := by
  match f, g with
  | none, none =>
    exact ⟨rfl, (List.cons.inj h).2⟩
  | none, some t =>
    exact absurd (List.cons.inj h).1 (by decide)
  | some s, none =>
    exact absurd (List.cons.inj h).1 (by decide)
  | some s, some t =>
    -- tags and lengths take five octets, and equal lengths make the texts end at one place
    simp only [encodeField, List.cons_append, List.append_assoc, List.cons.injEq, true_and] at h
    obtain ⟨htag, hrest⟩ := List.append_inj h rfl
    have hlength : (Text.utf8 s).length = (Text.utf8 t).length :=
      lengthTag_injective (hf s rfl) (hg t rfl) (bigEndian32_injective htag)
    obtain ⟨htext, hxs⟩ := List.append_inj hrest hlength
    exact ⟨congrArg some (Text.utf8_injective htext), hxs⟩

/-- So many fields say where they end. -/
theorem encodeFields_append_inj {fs gs : List (Option String)} (hlength : fs.length = gs.length)
    (hfs : ∀ f ∈ fs, FieldFits f) (hgs : ∀ g ∈ gs, FieldFits g) {xs ys : List UInt8}
    (h : fs.flatMap encodeField ++ xs = gs.flatMap encodeField ++ ys) : fs = gs ∧ xs = ys := by
  induction fs generalizing gs with
  | nil =>
    obtain rfl := List.length_eq_zero_iff.mp hlength.symm
    exact ⟨rfl, h⟩
  | cons f fs ih =>
    cases gs with
    | nil => cases hlength
    | cons g gs =>
      simp only [List.flatMap_cons, List.append_assoc] at h
      obtain ⟨rfl, hrest⟩ :=
        encodeField_append_inj (hfs f List.mem_cons_self) (hgs g List.mem_cons_self) h
      obtain ⟨rfl, hxs⟩ := ih (Nat.succ.inj hlength)
        (fun f hf => hfs f (List.mem_cons_of_mem _ hf))
        (fun g hg => hgs g (List.mem_cons_of_mem _ hg)) hrest
      exact ⟨rfl, hxs⟩

/-- An encoding says where it ends: whatever octets follow it, sequence, event and the rest can be
told. -/
theorem encode_append_inj {m n : UInt64} {d e : Event} (hd : d.Fits) (he : e.Fits)
    {xs ys : List UInt8} (h : encode m d ++ xs = encode n e ++ ys) :
    m = n ∧ d.shown = e.shown ∧ xs = ys := by
  simp only [encode, List.append_assoc] at h
  obtain ⟨hsequence, hrest⟩ := List.append_inj h rfl
  have hlength : d.fields.length = e.fields.length := rfl
  obtain ⟨hfields, hrest⟩ := encodeFields_append_inj hlength hd.fields he.fields hrest
  exact ⟨bigEndian64_injective hsequence, Event.fields_eq_iff.mp hfields, hrest⟩

/-- The octets that are hashed tell sequence, event and previous hash, although nothing marks where
the previous hash begins. -/
theorem hashInput_inj {m n : UInt64} {d e : Event} {p q : String} (hd : d.Fits) (he : e.Fits)
    (h : hashInput m d p = hashInput n e q) : m = n ∧ d.shown = e.shown ∧ p = q := by
  obtain ⟨hsequence, hevent, hprevious⟩ := encode_append_inj hd he h
  exact ⟨hsequence, hevent, Text.utf8_injective hprevious⟩

/-- **The hash input is unambiguous.**  Two hash inputs are the same octets just if sequence and
previous hash are the same and the events are shown alike; and one encoding begins with another only
if they are of the same sequence and of events that are shown alike, so none is a proper prefix of
another.  Events that are shown alike are the same, each field included, unless the instant of one of
them alone is in a leap second off the minute. -/
theorem encoding_unambiguous {m n : UInt64} {d e : Event} (hd : d.Fits) (he : e.Fits) :
    (∀ p q, encode m d ++ Text.utf8 p = encode n e ++ Text.utf8 q ↔
      m = n ∧ d.shown = e.shown ∧ p = q) ∧
    (encode m d <+: encode n e ↔ m = n ∧ d.shown = e.shown) ∧
    (encode m d <+: encode n e → encode m d = encode n e) ∧
    ((d.occurredAt.OffMinute ↔ e.occurredAt.OffMinute) → (d.shown = e.shown ↔ d = e)) := by
  have hsame : ∀ {sequence}, d.shown = e.shown → encode sequence d = encode sequence e := by
    intro sequence hevent
    rw [← encode_shown sequence d, hevent, encode_shown]
  have hbegin : encode m d <+: encode n e → m = n ∧ d.shown = e.shown := by
    rintro ⟨rest, hrest⟩
    rw [← List.append_nil (encode n e)] at hrest
    obtain ⟨hsequence, hevent, -⟩ := encode_append_inj hd he hrest
    exact ⟨hsequence, hevent⟩
  refine ⟨fun p q => ⟨hashInput_inj hd he, ?_⟩, ⟨hbegin, ?_⟩, ?_, fun hoff => ⟨?_, ?_⟩⟩
  · rintro ⟨rfl, hevent, rfl⟩
    rw [hsame hevent]
  · rintro ⟨rfl, hevent⟩
    exact ⟨[], by rw [List.append_nil, hsame hevent]⟩
  · intro hbegins
    obtain ⟨rfl, hevent⟩ := hbegin hbegins
    exact hsame hevent
  · exact fun hevent => Event.eq_of_shown_eq hevent hoff
  · exact congrArg Event.shown

/-- An event that tells or does not tell an agent. -/
def leapEvent (occurredAt : Timestamp) (userAgent : Option String) : Event where
  dedupKey := ⟨"leap"⟩
  entityName := "order"
  action := .deleted
  entityId := "1"
  userAgent := userAgent
  occurredAt := occurredAt

/-- A leap second before the year zero. -/
def leapSecond : Timestamp :=
  ⟨⟨-44, 12, 31, by decide⟩, ⟨86399, 1999999999, by decide⟩⟩

/-- An agent that is told to be empty is not one that is not told of, whatever comes behind. -/
theorem encoding_unambiguous_leap :
    let d := leapEvent leapSecond none
    let e := leapEvent leapSecond (some "")
    d.Fits ∧ e.Fits ∧ (d.occurredAt.OffMinute ↔ e.occurredAt.OffMinute) ∧
    (∀ p q, encode 7 d ++ Text.utf8 p ≠ encode 7 e ++ Text.utf8 q) ∧ ¬encode 7 d <+: encode 7 e := by
  intro d e
  have hd : d.Fits := by decide +kernel
  have he : e.Fits := by decide +kernel
  obtain ⟨hinput, hbegins, -, hexact⟩ := @encoding_unambiguous 7 7 d e hd he
  have hne : d.shown ≠ e.shown := by
    rw [ne_eq, hexact .rfl]
    decide
  refine ⟨hd, he, .rfl, ?_, ?_⟩
  · intro p q h
    exact hne ((hinput p q).mp h).2.1
  · intro h
    exact hne (hbegins.mp h).2

/-- A leap second off the minute is not told from the second that comes next: two events that differ
have one encoding. -/
theorem encode_stray :
    let d := leapEvent .stray none
    let e := leapEvent { Timestamp.noon with time := ⟨12 * 3600 + 5, 333333333, by decide⟩ } none
    d.Fits ∧ e.Fits ∧ d ≠ e ∧ ∀ p, encode 7 d ++ Text.utf8 p = encode 7 e ++ Text.utf8 p := by
  intro d e
  have hshown : d.shown = e := congrArg (leapEvent · none) Timestamp.shown_stray
  refine ⟨by decide +kernel, by decide +kernel, by decide, fun p => ?_⟩
  rw [← hshown, encode_shown]

/-! ### Entries with one hash -/

/-- Two inputs of the hash function differ and have one digest. -/
def Collides (x y : List UInt8) : Prop :=
  x ≠ y ∧ Sha256.digest x = Sha256.digest y

namespace Entry

variable {d e : Entry}

/-- The input of the hash function tells everything that is shown but the hash itself. -/
theorem hashInput_inj (hd : d.event.Fits) (he : e.event.Fits) (h : d.hashInput = e.hashInput) :
    d.sequence = e.sequence ∧ d.event.shown = e.event.shown ∧ d.previousHash = e.previousHash :=
  AuditChain.hashInput_inj hd he h

/-- **Entries with one hash are shown alike, unless their inputs collide.**  Each must carry the hash
that its fields call for. -/
theorem shown_eq_or_collides (hd : d.event.Fits) (he : e.event.Fits)
    (hdhash : d.hash = d.recompute) (hehash : e.hash = e.recompute) (h : d.hash = e.hash) :
    d.shown = e.shown ∨ Collides d.hashInput e.hashInput := by
  have hdigest : Sha256.digest d.hashInput = Sha256.digest e.hashInput := by
    rw [hdhash, hehash] at h
    exact Text.hex_injective h
  by_cases hinput : d.hashInput = e.hashInput
  · obtain ⟨hsequence, hevent, hprevious⟩ := hashInput_inj hd he hinput
    exact .inl (shown_eq_iff.mpr ⟨hsequence, hevent, hprevious, h⟩)
  · exact .inr ⟨hinput, hdigest⟩

end Entry

end AuditChain
