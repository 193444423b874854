import AuditChain.Proofs.Chain
import AuditChain.Proofs.Time.ReadBack
import AuditChain.Verify.Cursor

/-!
# Entries as they are shown

Nothing that is written, hashed or stored tells more of an instant than a clock shows.  So two events
that are shown alike have the same fields, and two entries the same hash, although the instants may
be different ones.

## Main definitions

* `Event.shown`, `Entry.shown`, `Snapshot.shown` — with each instant as it is shown.

## Main results

* `Event.fields_eq_iff` — **the fields tell what is shown of an event**, and no more.
* `hashInput_shown`, `Entry.recompute_shown` — what is hashed is what is shown.
* `isSlice_map_shown_iff` — what is shown of a piece of a chain is a piece of a chain.
* `Verify.verifyEntries_map_shown` — **entries are verified as what they are shown as.**
-/

namespace AuditChain

/-- An instant in a leap second off the minute, a third of a second into the one that lengthens the
fourth second after noon.  It is shown as an instant in the fifth. -/
def Timestamp.stray : Timestamp :=
  { noon with time := ⟨12 * 3600 + 4, 1333333333, by decide⟩ }

theorem Timestamp.shown_stray :
    stray.shown = { noon with time := ⟨12 * 3600 + 5, 333333333, by decide⟩ } := rfl

/-! ### Events -/

namespace Event

/-- The event with its instant as it is shown. -/
def shown (e : Event) : Event :=
  { e with occurredAt := e.occurredAt.shown }

theorem shown_of_not {e : Event} (h : ¬e.occurredAt.OffMinute) : e.shown = e := by
  rw [shown, Timestamp.shown_of_not h]

/-- An event is shown as itself just if its instant is. -/
theorem shown_eq_self_iff {e : Event} : e.shown = e ↔ ¬e.occurredAt.OffMinute := by
  refine ⟨fun h => ?_, shown_of_not⟩
  exact Timestamp.shown_eq_self_iff.mp (congrArg Event.occurredAt h)

@[simp] theorem shown_shown (e : Event) : e.shown.shown = e.shown :=
  shown_of_not e.occurredAt.not_offMinute_shown

/-- Events that are shown alike are equal, unless the instant of one of them alone is in a leap second
off the minute. -/
theorem eq_of_shown_eq {d e : Event} (h : d.shown = e.shown)
    (hoff : d.occurredAt.OffMinute ↔ e.occurredAt.OffMinute) : d = e := by
  have hinstant := Timestamp.eq_of_shown_eq (congrArg Event.occurredAt h) hoff
  cases d
  cases e
  simp_all [shown]

@[simp] theorem fields_shown (e : Event) : e.shown.fields = e.fields := by
  simp only [fields, shown, Timestamp.canonical_shown]

/-- **The fields tell what is shown of an event**, and no more. -/
theorem fields_eq_iff {d e : Event} : d.fields = e.fields ↔ d.shown = e.shown := by
  constructor
  · intro h
    simp only [fields, List.cons.injEq, Option.some.injEq, and_true] at h
    obtain ⟨hkey, hname, haction, hid, hold, hnew, huser, hemail, hinstant, hcorrelation, hip,
      hagent⟩ := h
    have hkey : d.dedupKey = e.dedupKey := congrArg DedupKey.mk hkey
    have haction : d.action = e.action := Action.name_injective haction
    have hinstant : d.occurredAt.shown = e.occurredAt.shown := Timestamp.canonical_eq_iff.mp hinstant
    obtain ⟨_, _, _, _, _, _, _, _, _, _, _, _⟩ := d
    obtain ⟨_, _, _, _, _, _, _, _, _, _, _, _⟩ := e
    simp_all [shown]
  · intro h
    rw [← d.fields_shown, h, e.fields_shown]

end Event

/-! ### Entries -/

@[simp] theorem encode_shown (sequence : UInt64) (event : Event) :
    encode sequence event.shown = encode sequence event := by
  rw [encode, Event.fields_shown, encode]

/-- What is hashed is what is shown. -/
@[simp] theorem hashInput_shown (sequence : UInt64) (event : Event) (previousHash : String) :
    hashInput sequence event.shown previousHash = hashInput sequence event previousHash := by
  rw [hashInput, encode_shown, hashInput]

namespace Entry

/-- The entry with its instant as it is shown. -/
def shown (e : Entry) : Entry :=
  { e with event := e.event.shown }

@[simp] theorem sequence_shown (e : Entry) : e.shown.sequence = e.sequence := rfl

@[simp] theorem event_shown (e : Entry) : e.shown.event = e.event.shown := rfl

@[simp] theorem previousHash_shown (e : Entry) : e.shown.previousHash = e.previousHash := rfl

@[simp] theorem hash_shown (e : Entry) : e.shown.hash = e.hash := rfl

theorem shown_of_not {e : Entry} (h : ¬e.event.occurredAt.OffMinute) : e.shown = e := by
  rw [shown, Event.shown_of_not h]

/-- An entry is shown as itself just if its instant is. -/
theorem shown_eq_self_iff {e : Entry} : e.shown = e ↔ ¬e.event.occurredAt.OffMinute := by
  refine ⟨fun h => ?_, shown_of_not⟩
  exact Event.shown_eq_self_iff.mp (congrArg Entry.event h)

@[simp] theorem shown_shown (e : Entry) : e.shown.shown = e.shown :=
  shown_of_not e.event.occurredAt.not_offMinute_shown

/-- Entries are shown alike just if their events are and nothing else tells them apart. -/
theorem shown_eq_iff {d e : Entry} : d.shown = e.shown ↔ d.sequence = e.sequence ∧
    d.event.shown = e.event.shown ∧ d.previousHash = e.previousHash ∧ d.hash = e.hash := by
  rw [shown, shown, Entry.mk.injEq]

/-- Entries that are shown alike are equal, unless the instant of one of them alone is in a leap second
off the minute. -/
theorem eq_of_shown_eq {d e : Entry} (h : d.shown = e.shown)
    (hoff : d.event.occurredAt.OffMinute ↔ e.event.occurredAt.OffMinute) : d = e := by
  obtain ⟨hsequence, hevent, hprevious, hhash⟩ := shown_eq_iff.mp h
  cases d
  cases e
  exact (Entry.mk.injEq ..).mpr ⟨hsequence, Event.eq_of_shown_eq hevent hoff, hprevious, hhash⟩

theorem map_shown_of_not {es : List Entry} (h : ∀ e ∈ es, ¬e.event.occurredAt.OffMinute) :
    es.map shown = es :=
  (List.map_congr_left fun e he => shown_of_not (h e he)).trans (List.map_id es)

theorem map_shown_eq_self_iff {es : List Entry} :
    es.map shown = es ↔ ∀ e ∈ es, ¬e.event.occurredAt.OffMinute := by
  refine ⟨fun h e he => ?_, map_shown_of_not⟩
  rw [← h] at he
  obtain ⟨d, -, rfl⟩ := List.mem_map.mp he
  exact d.event.occurredAt.not_offMinute_shown

@[simp] theorem hashInput_shown (e : Entry) : e.shown.hashInput = e.hashInput := by
  simp only [hashInput, sequence_shown, event_shown, previousHash_shown, AuditChain.hashInput_shown]

/-- An entry calls for the hash that it calls for as it is shown. -/
@[simp] theorem recompute_shown (e : Entry) : e.shown.recompute = e.recompute := by
  rw [recompute, hashEntry, sequence_shown, event_shown, previousHash_shown,
    AuditChain.hashInput_shown, recompute, hashEntry]

/-- An event is sealed as it is shown. -/
theorem shown_sealed (sequence : UInt64) (event : Event) (previousHash : String) :
    (Entry.sealed sequence event previousHash).shown =
      .sealed sequence event.shown previousHash := by
  simp only [Entry.sealed, shown, hashEntry, AuditChain.hashInput_shown]

end Entry

/-! ### Pieces of chains -/

/-- A piece of a chain is shown as a piece of a chain, and nothing else is. -/
theorem isSlice_map_shown_iff {first : Nat} {es : List Entry} :
    IsSlice first (es.map Entry.shown) ↔ IsSlice first es := by
  constructor
  · rintro ⟨hsequence, hgenesis, hlinked, hhash⟩
    simp only [List.length_map, List.getElem_map, Entry.sequence_shown, Entry.previousHash_shown,
      Entry.hash_shown] at hsequence hlinked
    refine ⟨hsequence, ?_, hlinked, ?_⟩
    · intro hfirst e he
      refine hgenesis hfirst e.shown ?_
      rw [List.head?_map, he, Option.map_some]
      exact rfl
    · intro e he
      rw [← e.recompute_shown]
      exact hhash e.shown (List.mem_map_of_mem he)
  · rintro ⟨hsequence, hgenesis, hlinked, hhash⟩
    refine ⟨?_, ?_, ?_, ?_⟩
    · simpa only [List.length_map, List.getElem_map, Entry.sequence_shown] using hsequence
    · intro hfirst d hd
      rw [List.head?_map, Option.mem_def, Option.map_eq_some_iff] at hd
      obtain ⟨e, he, rfl⟩ := hd
      exact hgenesis hfirst e he
    · simpa only [List.length_map, List.getElem_map, Entry.previousHash_shown, Entry.hash_shown]
        using hlinked
    · intro d hd
      obtain ⟨e, he, rfl⟩ := List.mem_map.mp hd
      rw [Entry.recompute_shown]
      exact hhash e he

/-- A chain is shown as a chain. -/
theorem IsChain.shown {es : List Entry} (h : IsChain es) : IsChain (es.map Entry.shown) where
  toIsSlice := isSlice_map_shown_iff.mpr h.toIsSlice
  keys := List.pairwise_map.mpr h.keys

/-- The slice with each instant as it is shown. -/
def Snapshot.shown (s : Snapshot) : Snapshot :=
  ⟨s.entries.map Entry.shown, s.exportedAt.shown, s.terminalHash⟩

/-- A slice is shown as itself just if all its instants are. -/
theorem Snapshot.shown_eq_self_iff {s : Snapshot} : s.shown = s ↔
    (∀ e ∈ s.entries, ¬e.event.occurredAt.OffMinute) ∧ ¬s.exportedAt.OffMinute := by
  rw [← Timestamp.shown_eq_self_iff, ← Entry.map_shown_eq_self_iff]
  cases s
  rw [shown, mk.injEq]
  exact ⟨fun h => ⟨h.1, h.2.1⟩, fun h => ⟨h.1, h.2, rfl⟩⟩

/-! ### Verification -/

namespace Verify

@[simp] theorem Cursor.check_shown (c : Cursor) (e : Entry) : c.check e.shown = c.check e := by
  simp only [check, Entry.sequence_shown, Entry.previousHash_shown, Entry.hash_shown,
    Entry.recompute_shown]

theorem Walk.feed_map_shown (w : Walk) (es : List Entry) :
    w.feed (es.map Entry.shown) = w.feed es := by
  induction es generalizing w with
  | nil => rfl
  | cons e es ih => simp only [List.map_cons, feed, step, Cursor.check_shown, Entry.sequence_shown, ih]

/-- **Entries are verified as what they are shown as.** -/
theorem verifyEntries_map_shown (first last : UInt64) (es : List Entry) :
    verifyEntries first last (es.map Entry.shown) = verifyEntries first last es := by
  rw [verifyEntries, Walk.feed_map_shown, verifyEntries]

/-- So is a slice. -/
theorem verifySnapshot_shown (s : Snapshot) : verifySnapshot s.shown = verifySnapshot s := by
  simp only [verifySnapshot, Snapshot.shown, List.head?_map, List.getLast?_map, Option.map_map,
    verifyEntries_map_shown]
  rfl

end Verify

end AuditChain
