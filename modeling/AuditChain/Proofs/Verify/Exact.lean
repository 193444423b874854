import AuditChain.Proofs.Chain
import AuditChain.Proofs.Verify.SinglePass
import AuditChain.Store.Memory

/-!
# What a verification finds

A verification of what is stored in a range is exact: it calls the range intact just if its entries
are a piece of a chain, and otherwise it stops at the first entry that cannot come next and says
why.  The walk remembers what it must about the entries that have passed; nothing else of them
counts.

## Main definitions

* `offence` — why an entry cannot come next.
* `Exact` — a report says all there is to say about a range.
* `Walk.after` — the walk that has passed so many entries.

## Main results

* `Walk.step_after_admits`, `Walk.step_after_refuses` — what becomes of the next entry.
* `exact_verifyEntries` — a single pass over ascending entries is exact.
* `verify_exact` — **verification of a store in memory is exact**, whatever the size of the batches.
-/

namespace AuditChain.Verify

/-- Why an entry cannot come after a piece of a chain: its sequence is looked at first, then its
link, then its hash. -/
def offence (first : Nat) (passed : List Entry) (e : Entry) : Violation :=
  if e.sequence.toNat ≠ first + passed.length then .sequenceGap e.sequence
  else if ∃ p ∈ linkAfter first passed, e.previousHash ≠ p then .brokenLink e.sequence
  else .hashMismatch e.sequence

/-- A report says how far the entries of a range are a piece of a chain, and what ends it. -/
structure Exact (first last : UInt64) (es : List Entry) (r : Report) : Prop where
  /-- The report is about the range. -/
  range : r.first = first ∧ r.last = last
  /-- The range is intact exactly if its entries are a piece of a chain. -/
  intact_iff : r.finding = .intact ↔ IsSlice first.toNat es
  /-- The report counts the entries before the first that cannot come next, and names the last of
  them and the offence. -/
  passed : ∃ passed rest, es = passed ++ rest ∧ IsSlice first.toNat passed ∧
    r.entriesChecked = passed.length ∧ r.lastVerified = passed.getLast?.map Entry.sequence ∧
    ∀ e ∈ rest.head?, ¬Continues first.toNat passed e ∧
      r.finding = .violated (offence first.toNat passed e)

/-! ### The walk after so many entries -/

/-- The walk that has passed these entries. -/
def Walk.after (first last : UInt64) (passed : List Entry) : Walk where
  cursor := {
    next := (passed.getLast?.map fun e => Cursor.following e.sequence).getD first
    expected := linkAfter first.toNat passed }
  first := first
  last := last
  checked := passed.length
  lastVerified := passed.getLast?.map Entry.sequence

theorem Walk.after_nil (first last : UInt64) :
    Walk.after first last [] = Walk.start first last := by
  have hzero : first.toNat = 0 ↔ first = 0 := UInt64.toNat_inj (b := 0)
  simp [after, start, Cursor.startingAt, hzero]

variable {first : UInt64} {passed : List Entry} {e : Entry}

/-- The sequence that the cursor waits for is the next one, unless the sequences have come to their
end, where nothing later can have it. -/
theorem eq_next_iff (last : UInt64) (hpassed : IsSlice first.toNat passed) {sequence : UInt64}
    (habove : ∀ d ∈ passed, d.sequence < sequence) :
    sequence = (Walk.after first last passed).cursor.next ↔
      sequence.toNat = first.toNat + passed.length := by
  rcases List.eq_nil_or_concat passed with rfl | ⟨init, d, rfl⟩
  · exact UInt64.toNat_inj.symm
  · rw [List.concat_eq_append] at *
    have hd := hpassed.continues_of_concat.sequence
    have hlt : d.sequence < sequence := habove d (by simp)
    -- nothing lies above the greatest sequence
    have hmax : d.sequence ≠ maxSequence := by
      intro hmax
      rw [hmax, UInt64.lt_iff_toNat_lt] at hlt
      have hle := sequence.toNat_lt
      have : maxSequence.toNat = 18446744073709551615 := rfl
      omega
    simp only [Walk.after, List.getLast?_concat, Option.map_some, Option.getD_some,
      Cursor.following, if_neg hmax]
    rw [← UInt64.toNat_inj, toNat_succ_of_lt hlt, hd, List.length_append, List.length_singleton,
      Nat.add_assoc]

/-- The link that the cursor accepts is the one to be named. -/
theorem expected_iff (first last : UInt64) (passed : List Entry) (e : Entry) :
    (Walk.after first last passed).cursor.expected.getD e.previousHash = e.previousHash ↔
    ∀ p ∈ linkAfter first.toNat passed, e.previousHash = p := by
  show (linkAfter first.toNat passed).getD e.previousHash = e.previousHash ↔ _
  cases linkAfter first.toNat passed with
  | none => simp
  | some p => simp [eq_comm]

namespace Walk

/-- An entry passes if its sequence is the one that is waited for, its link is the one to be named
and its hash is the one that its fields call for. -/
theorem step_after_admits {last : UInt64} {awaited : Nat}
    (hnext : e.sequence = (after first last passed).cursor.next ↔ e.sequence.toNat = awaited)
    (hsequence : e.sequence.toNat = awaited)
    (hlink : ∀ p ∈ linkAfter first.toNat passed, e.previousHash = p) (hhash : e.hash = e.recompute) :
    (after first last passed).step e = .ok (after first last (passed ++ [e])) := by
  have hequal := (expected_iff first last passed e).mpr hlink
  rw [step, Cursor.check, if_neg (not_not_intro (hnext.mpr hsequence)),
    if_neg (not_not_intro hequal), if_neg (not_not_intro hhash.symm)]
  simp [after]

/-- Any other entry ends the walk: its sequence is looked at first, then its link, then its hash. -/
theorem step_after_refuses {last : UInt64} {awaited : Nat}
    (hnext : e.sequence = (after first last passed).cursor.next ↔ e.sequence.toNat = awaited)
    (he : ¬(e.sequence.toNat = awaited ∧
      (∀ p ∈ linkAfter first.toNat passed, e.previousHash = p) ∧ e.hash = e.recompute)) :
    (after first last passed).step e = .error
      (if e.sequence.toNat ≠ awaited then .sequenceGap e.sequence
      else if ∃ p ∈ linkAfter first.toNat passed, e.previousHash ≠ p then .brokenLink e.sequence
      else .hashMismatch e.sequence) := by
  have hlink := expected_iff first last passed e
  rw [step, Cursor.check]
  by_cases hsequence : e.sequence.toNat = awaited
  · rw [if_neg (not_not_intro (hnext.mpr hsequence)), if_neg (not_not_intro hsequence)]
    by_cases hbroken : ∃ p ∈ linkAfter first.toNat passed, e.previousHash ≠ p
    · have hunequal :
          (after first last passed).cursor.expected.getD e.previousHash ≠ e.previousHash := by
        intro heq
        obtain ⟨p, hp, hne⟩ := hbroken
        exact hne (hlink.mp heq p hp)
      rw [if_pos hunequal, if_pos hbroken]
    · -- sequence and link are right, so it is the hash that is not
      have hequal : ∀ p ∈ linkAfter first.toNat passed, e.previousHash = p := by
        intro p hp
        by_contra hne
        exact hbroken ⟨p, hp, hne⟩
      have hhash : e.recompute ≠ e.hash := fun heq => he ⟨hsequence, hequal, heq.symm⟩
      rw [if_neg (not_not_intro (hlink.mpr hequal)), if_pos hhash, if_neg hbroken]
  · rw [if_pos (fun heq => hsequence (hnext.mp heq)), if_pos hsequence]

/-- An entry that can come next passes. -/
theorem step_after_of_continues (last : UInt64) (hpassed : IsSlice first.toNat passed)
    (habove : ∀ d ∈ passed, d.sequence < e.sequence) (he : Continues first.toNat passed e) :
    (after first last passed).step e = .ok (after first last (passed ++ [e])) :=
  step_after_admits (eq_next_iff last hpassed habove) he.sequence he.link he.hash

/-- An entry that cannot come next ends the walk with the offence. -/
theorem step_after_of_not_continues (last : UInt64) (hpassed : IsSlice first.toNat passed)
    (habove : ∀ d ∈ passed, d.sequence < e.sequence) (he : ¬Continues first.toNat passed e) :
    (after first last passed).step e = .error (offence first.toNat passed e) := by
  refine step_after_refuses (eq_next_iff last hpassed habove) ?_
  rintro ⟨hsequence, hlink, hhash⟩
  exact he ⟨hsequence, hlink, hhash⟩

/-- A walk that has passed a piece of a chain passes what continues it. -/
theorem feed_after (last : UInt64) {es : List Entry} (hslice : IsSlice first.toNat (passed ++ es))
    (hasc : Ascending Entry.sequence (passed ++ es)) :
    (after first last passed).feed es = .ok (after first last (passed ++ es)) := by
  induction es generalizing passed with
  | nil =>
    rw [List.append_nil]
    rfl
  | cons e es ih =>
    have habove := hasc.split.1
    have happend : passed ++ e :: es = passed ++ [e] ++ es := by simp
    rw [happend] at hslice hasc ⊢
    obtain ⟨hpassed, he⟩ := isSlice_concat_iff.mp hslice.of_append
    rw [feed, step_after_of_continues last hpassed habove he]
    exact ih hslice hasc

/-- A walk that has passed a piece of a chain goes on to an exact report. -/
theorem exact_feed_after (last : UInt64) {es : List Entry} (hpassed : IsSlice first.toNat passed)
    (hasc : Ascending Entry.sequence (passed ++ es)) :
    Exact first last (passed ++ es) (conclude ((after first last passed).feed es)) := by
  induction es generalizing passed with
  | nil =>
    rw [List.append_nil]
    refine ⟨⟨rfl, rfl⟩, ⟨fun _ => hpassed, fun _ => rfl⟩, passed, [], ?_⟩
    exact ⟨(List.append_nil passed).symm, hpassed, rfl, rfl, by simp⟩
  | cons e es ih =>
    have habove := hasc.split.1
    by_cases he : Continues first.toNat passed e
    · rw [feed, step_after_of_continues last hpassed habove he]
      have happend : passed ++ e :: es = passed ++ [e] ++ es := by simp
      rw [happend] at hasc ⊢
      exact ih (hpassed.concat he) hasc
    · rw [feed, step_after_of_not_continues last hpassed habove he]
      -- what follows the offence cannot mend it
      have hnot : ¬IsSlice first.toNat (passed ++ e :: es) := by
        intro hslice
        have happend : passed ++ e :: es = passed ++ [e] ++ es := by simp
        rw [happend] at hslice
        exact he hslice.of_append.continues_of_concat
      refine ⟨⟨rfl, rfl⟩, ⟨fun hintact => ?_, fun hslice => absurd hslice hnot⟩,
        passed, e :: es, ?_⟩
      · cases hintact
      · refine ⟨rfl, hpassed, rfl, rfl, ?_⟩
        intro d hd
        obtain rfl : e = d := by simpa using hd
        exact ⟨he, rfl⟩

end Walk

/-- A single pass over ascending entries is exact. -/
theorem exact_verifyEntries (first last : UInt64) {es : List Entry}
    (hasc : Ascending Entry.sequence es) : Exact first last es (verifyEntries first last es) := by
  have hfeed := Walk.exact_feed_after last (isSlice_nil first.toNat) hasc
  rw [Walk.after_nil] at hfeed
  exact hfeed

/-- A walk from the start of a range passes a piece of a chain. -/
theorem Walk.feed_start {first : UInt64} (last : UInt64) {es : List Entry}
    (h : IsSlice first.toNat es) :
    (Walk.start first last).feed es = .ok (Walk.after first last es) := by
  rw [← Walk.after_nil]
  exact Walk.feed_after last h h.ascending

/-- A piece of a chain is found intact, and all of it is counted. -/
theorem verifyEntries_of_isSlice (first last : UInt64) {es : List Entry}
    (h : IsSlice first.toNat es) : verifyEntries first last es =
      ⟨first, last, es.length, es.getLast?.map Entry.sequence, .intact⟩ := by
  rw [verifyEntries, Walk.feed_start last h]
  rfl

/-- So is a snapshot of it. -/
theorem verifySnapshot_of_isSlice {s : Snapshot} {first : Nat} (h : IsSlice first s.entries) :
    (verifySnapshot s).finding = .intact := by
  have hslice : IsSlice ((s.entries.head?.map Entry.sequence).getD 0).toNat s.entries := by
    cases hes : s.entries with
    | nil => exact isSlice_nil _
    | cons e es =>
      rw [hes] at h
      have hfirst : e.sequence.toNat = first := h.sequence 0 (Nat.zero_lt_succ _)
      rwa [← hfirst] at h
  rw [verifySnapshot, verifyEntries_of_isSlice _ _ hslice]

/-- A pass stops at the first entry that cannot come next, whatever comes after it. -/
theorem verifyEntries_of_not_continues (first last : UInt64) {passed : List Entry} {e : Entry}
    (hpassed : IsSlice first.toNat passed) (habove : ∀ d ∈ passed, d.sequence < e.sequence)
    (he : ¬Continues first.toNat passed e) (rest : List Entry) :
    verifyEntries first last (passed ++ e :: rest) =
      ⟨first, last, passed.length, passed.getLast?.map Entry.sequence,
        .violated (offence first.toNat passed e)⟩ := by
  rw [verifyEntries, Walk.feed_append, Walk.feed_start last hpassed]
  show Walk.conclude ((Walk.after first last passed).feed (e :: rest)) = _
  rw [Walk.feed, Walk.step_after_of_not_continues last hpassed habove he]
  rfl

/-! ### The store in memory -/

theorem ascending_slots (m : MemoryStore) : Ascending Slot.sequence (m.entries.map Slot.entry) := by
  rw [Ascending, List.pairwise_map]
  exact m.ascending

theorem within_slots (a b : UInt64) (es : List Entry) :
    within Slot.sequence a b (es.map .entry) = (within Entry.sequence a b es).map .entry := by
  rw [within, List.filter_map]
  rfl

/-- A store in memory reads its entries. -/
theorem readsAs_memory (m : MemoryStore) (batch first last : UInt64) :
    ReadsAs m (m.entries.map .entry) batch first last := by
  intro a b _ _ _
  rw [within_slots, ← List.map_take, readSlots_entries]
  rfl

/-- Verification of a range of a store in memory is a single pass over its entries there. -/
theorem verify_memory (m : MemoryStore) (batch : UInt64) {first last : UInt64} (hle : first ≤ last)
    (cancelled : Bool) : (verify batch first last).run (Store.respond cancelled) m =
      (.ok (.ok (verifyEntries first last (within Entry.sequence first last m.entries))), m) := by
  rw [verify_run (ascending_slots m) (readsAs_memory m _ first last) cancelled hle, within_slots,
    Walk.pass_entries]
  rfl

/-- Verification of everything is verification up to the greatest sequence. -/
theorem verifyAll_memory (m : MemoryStore) (batch : UInt64) (cancelled : Bool) :
    ∃ last, (∀ e ∈ m.entries, e.sequence ≤ last) ∧
      (m.entries = [] ∧ last = 0 ∨ ∃ e ∈ m.entries, e.sequence = last) ∧
      (verifyAll batch).run (Store.respond cancelled) m =
        (.ok (.ok (verifyEntries 0 last m.entries)), m) := by
  obtain ⟨last, hlast, hgreatest, hrun⟩ := verifyAll_run (s := m) m.ascending rfl batch cancelled
  have hwithin : within Entry.sequence 0 last m.entries = m.entries :=
    within_eq_self fun e he => ⟨UInt64.zero_le, hlast e he⟩
  refine ⟨last, hlast, hgreatest, ?_⟩
  rw [hrun, verify_memory m batch UInt64.zero_le cancelled, hwithin]

/-- **Verification of a store in memory is exact**, whatever is stored and whatever the size of the
batches: it succeeds, and reports what a single pass over the entries of the range finds.  To verify
everything is to verify the range up to the greatest sequence. -/
theorem verify_exact (m : MemoryStore) (batch : UInt64) (cancelled : Bool) :
    (∀ first last, first ≤ last → ∃ r,
      (verify batch first last).run (Store.respond cancelled) m = (.ok (.ok r), m) ∧
      r = verifyEntries first last (within Entry.sequence first last m.entries) ∧
      Exact first last (within Entry.sequence first last m.entries) r) ∧
    ∃ last r, (∀ e ∈ m.entries, e.sequence ≤ last) ∧
      (m.entries = [] ∧ last = 0 ∨ ∃ e ∈ m.entries, e.sequence = last) ∧
      (verifyAll batch).run (Store.respond cancelled) m = (.ok (.ok r), m) ∧
      r = verifyEntries 0 last m.entries ∧ Exact 0 last m.entries r := by
  constructor
  · intro first last hle
    exact ⟨_, verify_memory m batch hle cancelled, rfl,
      exact_verifyEntries first last m.ascending.within⟩
  · obtain ⟨last, hall, hgreatest, hrun⟩ := verifyAll_memory m batch cancelled
    exact ⟨last, _, hall, hgreatest, hrun, rfl, exact_verifyEntries 0 last m.ascending⟩

/-- A store that lacks the entry at one. -/
def gapped : MemoryStore :=
  .ofEntries [.sealed 2 (.bare "third" "3") genesisHash,
    .sealed 0 (.bare "first" "1") genesisHash]

theorem verify_exact_gapped :
    let r : Report := ⟨0, 5, 1, some 0, .violated (.sequenceGap 2)⟩
    (0 : UInt64) ≤ 5 ∧ (verify 0 0 5).run (Store.respond false) gapped = (.ok (.ok r), gapped) ∧
      Exact 0 5 (within Entry.sequence 0 5 gapped.entries) r := by
  obtain ⟨r, hrun, hr, hexact⟩ := (verify_exact gapped 0 false).1 0 5 (by decide)
  have hfound : verifyEntries 0 5 (within Entry.sequence 0 5 gapped.entries) =
      ⟨0, 5, 1, some 0, .violated (.sequenceGap 2)⟩ := by decide +kernel
  rw [hr, hfound] at hrun hexact
  exact ⟨by decide, hrun, hexact⟩

end AuditChain.Verify
