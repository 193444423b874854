import AuditChain.Proofs.Store.Table
import AuditChain.Proofs.Verify.Exact

/-!
# Where a row that is no entry shows

Somebody has altered rows of a table behind the store's back, and some of them are no entries any
more: they name no action, or their instant cannot be read or is not written canonically.  A
verification that meets such a row cannot read the batch that it is in; it reads again what comes
before the row, in the middle of a walk.  Nothing of this shows in the report: it is that of one
pass over the rows in ascending order, which ends at the first row that is no entry or cannot come
next.

## Main definitions

* `stopAt` — what ends a pass.
* `Located` — a report says how far the rows of a range are a piece of a chain, and what ends it.

## Main results

* `located_pass` — a single pass says so.
* `undecodable_located` — **verification of altered rows is exact**, whatever the size of the
  batches.
-/

namespace AuditChain.Verify

/-- What ends a pass once these entries have passed and these rows are left. -/
def stopAt (first : Nat) (passed : List Entry) : List Slot → Finding
  | [] => .intact
  | .entry e :: _ => .violated (offence first passed e)
  | .unreadable sequence _ :: _ =>
    .violated (if sequence.toNat = first + passed.length then .hashMismatch sequence
      else .sequenceGap sequence)

/-- A report says how far the rows of a range are read as a piece of a chain, and what ends it. -/
structure Located (first last : UInt64) (slots : List Slot) (r : Report) : Prop where
  /-- The report is about the range. -/
  range : r.first = first ∧ r.last = last
  /-- The report counts the entries before the first row that is no entry or cannot come next, names
  the last of them, and says what is wrong with that row. -/
  passed : ∃ passed rest, slots = passed.map .entry ++ rest ∧ IsSlice first.toNat passed ∧
    (∀ e, rest.head? = some (.entry e) → ¬Continues first.toNat passed e) ∧
    r.entriesChecked = passed.length ∧ r.lastVerified = passed.getLast?.map Entry.sequence ∧
    r.finding = stopAt first.toNat passed rest

variable {first : UInt64} {passed : List Entry}

/-- What stands before a row of ascending rows lies below it. -/
theorem entries_below {slot : Slot} {slots : List Slot}
    (hasc : Ascending Slot.sequence (passed.map .entry ++ slot :: slots)) :
    ∀ d ∈ passed, d.sequence < slot.sequence :=
  fun _ hd => hasc.split.1 _ (List.mem_map_of_mem hd)

/-- A row that is no entry ends a walk at its place or beyond it. -/
theorem undecodable_after (last : UInt64) (hpassed : IsSlice first.toNat passed)
    {sequence : UInt64} (habove : ∀ d ∈ passed, d.sequence < sequence) (reason : String)
    (slots : List Slot) : undecodable (Walk.after first last passed) sequence =
      ⟨first, last, passed.length, passed.getLast?.map Entry.sequence,
        stopAt first.toNat passed (.unreadable sequence reason :: slots)⟩ := by
  have hnext := eq_next_iff last hpassed habove
  rw [undecodable, stopAt]
  by_cases hplace : sequence.toNat = first.toNat + passed.length
  · rw [if_pos (hnext.mpr hplace).symm, if_pos hplace]
    rfl
  · rw [if_neg fun heq => hplace (hnext.mp heq.symm), if_neg hplace]
    rfl

/-- A pass that has come so far goes on to a report that says where it ends. -/
theorem Walk.located_pass_after (last : UInt64) {slots : List Slot}
    (hpassed : IsSlice first.toNat passed)
    (hasc : Ascending Slot.sequence (passed.map .entry ++ slots)) :
    Located first last (passed.map .entry ++ slots)
      ((Walk.after first last passed).pass slots) := by
  induction slots generalizing passed with
  | nil =>
    refine ⟨⟨rfl, rfl⟩, passed, [], rfl, hpassed, ?_, rfl, rfl, rfl⟩
    intro e he
    cases he
  | cons slot slots ih =>
    have habove := entries_below hasc
    cases slot with
    | unreadable sequence reason =>
      rw [Slot.sequence_unreadable] at habove
      rw [pass, undecodable_after last hpassed habove reason slots]
      refine ⟨⟨rfl, rfl⟩, passed, _, rfl, hpassed, ?_, rfl, rfl, rfl⟩
      intro e he
      cases he
    | entry e =>
      by_cases he : Continues first.toNat passed e
      · have happend : passed.map Slot.entry ++ .entry e :: slots =
            (passed ++ [e]).map .entry ++ slots := by simp
        rw [pass, step_after_of_continues last hpassed habove he]
        rw [happend] at hasc ⊢
        exact ih (hpassed.concat he) hasc
      · rw [pass, step_after_of_not_continues last hpassed habove he]
        refine ⟨⟨rfl, rfl⟩, passed, _, rfl, hpassed, ?_, rfl, rfl, rfl⟩
        rintro d ⟨⟩
        exact he

/-- A single pass over ascending rows says how far they are a piece of a chain. -/
theorem located_pass {first last : UInt64} {slots : List Slot}
    (hasc : Ascending Slot.sequence slots) :
    Located first last slots ((Walk.start first last).pass slots) := by
  have hlocated : Located first last slots ((Walk.after first last []).pass slots) :=
    Walk.located_pass_after last (isSlice_nil first.toNat) hasc
  rwa [Walk.after_nil] at hlocated

/-- An intact range is a piece of a chain. -/
theorem Located.of_intact {first last : UInt64} {slots : List Slot} {r : Report}
    (h : Located first last slots r) (hintact : r.finding = .intact) :
    ∃ es : List Entry, slots = es.map .entry ∧ IsSlice first.toNat es ∧
      r.entriesChecked = es.length := by
  obtain ⟨passed, rest, rfl, hslice, -, hchecked, -, hfinding⟩ := h.passed
  rw [hintact] at hfinding
  -- a pass that stops at a row is not found intact
  rcases rest with _ | ⟨_ | _, _⟩
  · exact ⟨passed, List.append_nil _, hslice, hchecked⟩
  · cases hfinding
  · cases hfinding

/-- **Verification of altered rows is exact.**  Let the cells of a table be texts, whatever they
say.  Then a verification of a range succeeds, for batches of any size; it reports what a single
pass over the rows of the range reports, and that says which row is the first that is no entry or
cannot come next.

A limit above the range of primary keys is cut down to it, so a batch of that size would miss the
last row of a table that has a row for every primary key; there is no room for such a table. -/
theorem undecodable_located {t : Table} (ht : t.IsTextual) {first last : UInt64}
    (hle : first ≤ last) (hlast : (last.toNat : Int) ≤ maxRowid) (batch : UInt64)
    (hbatch : (batch.toNat : Int) ≤ maxRowid ∨ (t.rows.length : Int) ≤ maxRowid)
    (cancelled : Bool) :
    let slots := within Slot.sequence first last t.slots
    ∃ r, (verify batch first last).run (Store.respond cancelled) t = (.ok (.ok r), t) ∧
      r = (Walk.start first last).pass slots ∧ Located first last slots r := by
  intro slots
  exact ⟨_, ht.verify_run hle hlast hbatch cancelled, rfl, located_pass ht.ascending_slots.within⟩

/-- A row as an insert would leave it. -/
def firstRow : Row :=
  Row.ofEntry (.sealed 0 (.bare "first" "1") genesisHash)

/-- A table with that row, one that names no action, and one beyond a gap whose instant is not
written canonically. -/
def altered : Table :=
  ((Table.empty.put firstRow).put
    (Row.setCell { firstRow with sequence := 1 } .action (.text "removed"))).put
    (Row.setCell { firstRow with sequence := 3 } .occurredAt (.text "2000-01-01T12:00:00+00:00"))

theorem undecodable_located_altered :
    let mismatch : Report := ⟨0, 5, 1, some 0, .violated (.hashMismatch 1)⟩
    let gap : Report := ⟨2, 5, 0, none, .violated (.sequenceGap 3)⟩
    altered.IsTextual ∧ ((1 : UInt64).toNat : Int) ≤ maxRowid ∧
      ((5 : UInt64).toNat : Int) ≤ maxRowid ∧
      (verify 1 0 5).run (Store.respond false) altered = (.ok (.ok mismatch), altered) ∧
      Located 0 5 (within Slot.sequence 0 5 altered.slots) mismatch ∧
      (verify 1 2 5).run (Store.respond false) altered = (.ok (.ok gap), altered) ∧
      Located 2 5 (within Slot.sequence 2 5 altered.slots) gap := by
  have htextual : altered.IsTextual := by
    have hfirst : firstRow.IsTextual := Row.isTextual_ofEntry _
    have hmoved (sequence : Int) (hnonneg : 0 ≤ sequence) :
        Row.IsTextual { firstRow with sequence } := ⟨hnonneg, hfirst.texts⟩
    refine ((Table.isTextual_empty.put hfirst ?_).put ((hmoved 1 ?_).setCell _ _) ?_).put
      ((hmoved 3 ?_).setCell _ _) ?_
    all_goals decide
  have hone : ((1 : UInt64).toNat : Int) ≤ maxRowid := by decide
  have hfive : ((5 : UInt64).toNat : Int) ≤ maxRowid := by decide
  have hzero_le : (0 : UInt64) ≤ 5 := by decide
  have htwo_le : (2 : UInt64) ≤ 5 := by decide
  obtain ⟨r, hrun, hr, hlocated⟩ :=
    undecodable_located htextual hzero_le hfive 1 (.inl hone) false
  obtain ⟨r', hrun', hr', hlocated'⟩ :=
    undecodable_located htextual htwo_le hfive 1 (.inl hone) false
  have hmismatch : (Walk.start 0 5).pass (within Slot.sequence 0 5 altered.slots) =
      ⟨0, 5, 1, some 0, .violated (.hashMismatch 1)⟩ := by decide +kernel
  have hgap : (Walk.start 2 5).pass (within Slot.sequence 2 5 altered.slots) =
      ⟨2, 5, 0, none, .violated (.sequenceGap 3)⟩ := by decide +kernel
  rw [hr, hmismatch] at hrun hlocated
  rw [hr', hgap] at hrun' hlocated'
  exact ⟨htextual, hone, hfive, hrun, hlocated, hrun', hlocated'⟩

end AuditChain.Verify
