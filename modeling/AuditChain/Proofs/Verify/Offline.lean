import AuditChain.Proofs.Verify.Exact

/-!
# Verification of an exported slice

A store holds at most one entry at a sequence, and hands its entries out in ascending order.  An
exported slice may be anything: sequences may come twice in it or go down, and whether they follow
one another is for the cursor to tell.  The cursor waits for the next sequence; after the greatest
one there is none, and it waits for the greatest one again.

So a slice is found intact just if it is a piece of a chain, but for one kind of slices: those in
which a piece of a chain that ends at the greatest sequence has another entry there right behind it.

## Main definitions

* `awaited` — the sequence that a walk waits for after so many entries.
* `Admits`, `Unbroken` — an entry that a walk lets pass, and a list of them.
* `refusal` — why an entry does not pass.
* `Reported` — a report says how far a list is unbroken, and what ends it.
* `Overrun` — a second entry at the greatest sequence.

## Main results

* `Walk.reported_feed_after` — a walk goes on to such a report, whatever it is fed with.
* `Unbroken.isSlice_or_overrun` — an unbroken list is a piece of a chain or overruns.
* `snapshot_reported` — **what an offline verification finds.**
-/

namespace AuditChain.Verify

/-- The sequence that a walk waits for after so many entries; it stays at the greatest one. -/
def awaited (first : UInt64) (count : Nat) : Nat :=
  min (first.toNat + count) maxSequence.toNat

/-- An entry that a walk lets pass after others. -/
structure Admits (first : UInt64) (passed : List Entry) (e : Entry) : Prop where
  /-- Its sequence is the one that is waited for. -/
  sequence : e.sequence.toNat = awaited first passed.length
  /-- It names the hash of the last entry. -/
  link : ∀ p ∈ linkAfter first.toNat passed, e.previousHash = p
  /-- Its hash is the one that its fields call for. -/
  hash : e.hash = e.recompute

/-- Every entry of a list passes after those before it. -/
def Unbroken (first : UInt64) (es : List Entry) : Prop :=
  ∀ passed e rest, es = passed ++ e :: rest → Admits first passed e

/-- Why an entry does not pass: its sequence is looked at first, then its link, then its hash. -/
def refusal (first : UInt64) (passed : List Entry) (e : Entry) : Violation :=
  if e.sequence.toNat ≠ awaited first passed.length then .sequenceGap e.sequence
  else if ∃ p ∈ linkAfter first.toNat passed, e.previousHash ≠ p then .brokenLink e.sequence
  else .hashMismatch e.sequence

/-- A report says how far a list is unbroken, and what ends it. -/
structure Reported (first last : UInt64) (es : List Entry) (r : Report) : Prop where
  /-- The report is about the range. -/
  range : r.first = first ∧ r.last = last
  /-- The list is intact exactly if it is unbroken. -/
  intact_iff : r.finding = .intact ↔ Unbroken first es
  /-- The report counts the entries before the first that does not pass, and names the last of them
  and what is wrong with the one after it. -/
  passed : ∃ passed rest, es = passed ++ rest ∧ Unbroken first passed ∧
    r.entriesChecked = passed.length ∧ r.lastVerified = passed.getLast?.map Entry.sequence ∧
    ∀ e ∈ rest.head?, ¬Admits first passed e ∧ r.finding = .violated (refusal first passed e)

/-- Right after a piece of a chain that ends at the greatest sequence comes another entry there. -/
def Overrun (first : UInt64) (es : List Entry) : Prop :=
  ∃ passed e rest, es = passed ++ e :: rest ∧ IsSlice first.toNat passed ∧
    (∃ d ∈ passed.getLast?, d.sequence = maxSequence) ∧ e.sequence = maxSequence

variable {first last : UInt64} {passed es : List Entry} {e : Entry}

theorem toNat_le_max (sequence : UInt64) : sequence.toNat ≤ maxSequence.toNat :=
  Nat.le_of_lt_succ sequence.toNat_lt

/-! ### Unbroken lists -/

theorem unbroken_nil (first : UInt64) : Unbroken first [] := by
  intro passed e rest heq
  simp at heq

theorem unbroken_concat_iff :
    Unbroken first (es ++ [e]) ↔ Unbroken first es ∧ Admits first es e := by
  constructor
  · intro h
    refine ⟨?_, h es e [] rfl⟩
    rintro passed d rest rfl
    exact h passed d (rest ++ [e]) (by simp)
  · rintro ⟨hes, he⟩ passed d rest heq
    rcases List.eq_nil_or_concat rest with rfl | ⟨init, x, rfl⟩
    · obtain ⟨rfl, hed⟩ := List.append_inj' heq rfl
      rwa [← List.singleton_inj.mp hed]
    · rw [List.concat_eq_append, ← List.cons_append, ← List.append_assoc] at heq
      obtain ⟨rfl, -⟩ := List.append_inj' heq rfl
      exact hes passed d init rfl

/-- A piece of a chain that goes on has not come to the end of the sequences. -/
theorem awaited_of_continues (he : Continues first.toNat passed e) :
    awaited first passed.length = first.toNat + passed.length := by
  have hle := toNat_le_max e.sequence
  rw [he.sequence] at hle
  exact Nat.min_eq_left hle

theorem Admits.of_continues (he : Continues first.toNat passed e) : Admits first passed e where
  sequence := he.sequence.trans (awaited_of_continues he).symm
  link := he.link
  hash := he.hash

/-- A piece of a chain is unbroken. -/
theorem unbroken_of_isSlice (h : IsSlice first.toNat es) : Unbroken first es := by
  rintro passed e rest rfl
  have happend : passed ++ e :: rest = passed ++ [e] ++ rest := by simp
  rw [happend] at h
  exact .of_continues h.of_append.continues_of_concat

/-- A piece of a chain has come to the end of the sequences just if its last entry is there. -/
theorem last_eq_max_iff (h : IsSlice first.toNat passed) :
    (∃ d ∈ passed.getLast?, d.sequence = maxSequence) ↔
      maxSequence.toNat < first.toNat + passed.length := by
  rcases List.eq_nil_or_concat passed with rfl | ⟨init, d, rfl⟩
  · have hfirst := toNat_le_max first
    simpa using hfirst
  · rw [List.concat_eq_append] at h ⊢
    have hd := h.continues_of_concat.sequence
    have hle := toNat_le_max d.sequence
    rw [List.getLast?_concat, List.length_append, List.length_singleton]
    constructor
    · rintro ⟨x, hx, hmax⟩
      obtain rfl := Option.some.inj hx
      rw [← hmax]
      omega
    · intro hlt
      exact ⟨d, rfl, UInt64.toNat_inj.mp (by omega)⟩

/-- Up to the end of the sequences a walk waits for the next one. -/
theorem awaited_eq_iff (h : IsSlice first.toNat passed) :
    awaited first passed.length = first.toNat + passed.length ↔
      ¬∃ d ∈ passed.getLast?, d.sequence = maxSequence := by
  rw [last_eq_max_iff h, awaited]
  omega

theorem Overrun.append (h : Overrun first es) (ys : List Entry) : Overrun first (es ++ ys) := by
  obtain ⟨passed, e, rest, rfl, hover⟩ := h
  exact ⟨passed, e, rest ++ ys, by simp, hover⟩

/-- An unbroken list is a piece of a chain, unless it overruns. -/
theorem Unbroken.isSlice_or_overrun (h : Unbroken first es) :
    IsSlice first.toNat es ∨ Overrun first es := by
  induction es using List.reverseRecOn with
  | nil => exact .inl (isSlice_nil _)
  | append_singleton es e ih =>
    obtain ⟨hes, he⟩ := unbroken_concat_iff.mp h
    rcases ih hes with hslice | hover
    · by_cases hend : ∃ d ∈ es.getLast?, d.sequence = maxSequence
      · -- the walk waits for the greatest sequence again
        have hlt := (last_eq_max_iff hslice).mp hend
        have hmax : e.sequence.toNat = maxSequence.toNat :=
          he.sequence.trans (Nat.min_eq_right (Nat.le_of_lt hlt))
        exact .inr ⟨es, e, [], rfl, hslice, hend, UInt64.toNat_inj.mp hmax⟩
      · have hsequence := he.sequence.trans ((awaited_eq_iff hslice).mpr hend)
        exact .inl (hslice.concat ⟨hsequence, he.link, he.hash⟩)
    · exact .inr (hover.append [e])

/-! ### The walk -/

/-- After an unbroken list a walk waits for the sequence that it should. -/
theorem toNat_next_after (last : UInt64) (hpassed : Unbroken first passed) :
    (Walk.after first last passed).cursor.next.toNat = awaited first passed.length := by
  rcases List.eq_nil_or_concat passed with rfl | ⟨init, d, rfl⟩
  · exact (Nat.min_eq_left (toNat_le_max first)).symm
  · rw [List.concat_eq_append] at *
    have hd := (unbroken_concat_iff.mp hpassed).2.sequence
    simp only [Walk.after, List.getLast?_concat, Option.map_some, Option.getD_some,
      Cursor.following, List.length_append, List.length_singleton]
    unfold awaited at hd ⊢
    split
    · rename_i hmax
      rw [hmax] at hd
      omega
    · rename_i hmax
      have hlt : d.sequence.toNat < maxSequence.toNat :=
        Nat.lt_of_le_of_ne (toNat_le_max _) fun heq => hmax (UInt64.toNat_inj.mp heq)
      rw [toNat_succ_of_lt (UInt64.lt_iff_toNat_lt.mpr hlt)]
      omega

theorem eq_next_iff_awaited (last : UInt64) (hpassed : Unbroken first passed) (sequence : UInt64) :
    sequence = (Walk.after first last passed).cursor.next ↔
      sequence.toNat = awaited first passed.length := by
  rw [← toNat_next_after last hpassed, UInt64.toNat_inj]

/-- A walk that has passed an unbroken list goes on to a report, whatever comes. -/
theorem Walk.reported_feed_after (last : UInt64) (es : List Entry)
    (hpassed : Unbroken first passed) :
    Reported first last (passed ++ es) (conclude ((after first last passed).feed es)) := by
  induction es generalizing passed with
  | nil =>
    rw [List.append_nil]
    refine ⟨⟨rfl, rfl⟩, ⟨fun _ => hpassed, fun _ => rfl⟩, passed, [], ?_⟩
    exact ⟨(List.append_nil passed).symm, hpassed, rfl, rfl, by simp⟩
  | cons e es ih =>
    have hnext := eq_next_iff_awaited last hpassed e.sequence
    have happend : passed ++ e :: es = passed ++ [e] ++ es := by simp
    by_cases he : Admits first passed e
    · rw [feed, step_after_admits hnext he.sequence he.link he.hash, happend]
      exact ih (unbroken_concat_iff.mpr ⟨hpassed, he⟩)
    · have hrefused : (after first last passed).step e = .error (refusal first passed e) := by
        refine step_after_refuses hnext ?_
        rintro ⟨hsequence, hlink, hhash⟩
        exact he ⟨hsequence, hlink, hhash⟩
      rw [feed, hrefused]
      have hnot : ¬Unbroken first (passed ++ e :: es) := fun h => he (h passed e es rfl)
      refine ⟨⟨rfl, rfl⟩, ⟨fun hintact => ?_, fun h => absurd h hnot⟩, passed, e :: es, ?_⟩
      · cases hintact
      · refine ⟨rfl, hpassed, rfl, rfl, ?_⟩
        intro d hd
        obtain rfl : e = d := by simpa using hd
        exact ⟨he, rfl⟩

theorem reported_verifyEntries (first last : UInt64) (es : List Entry) :
    Reported first last es (verifyEntries first last es) := by
  have hfeed := Walk.reported_feed_after last es (unbroken_nil first)
  rw [Walk.after_nil] at hfeed
  exact hfeed

/-! ### Where the end of the sequences shows -/

/-- Where nothing overruns, what is waited for is what comes next. -/
theorem refusal_eq_offence (h : IsSlice first.toNat passed)
    (he : (∃ d ∈ passed.getLast?, d.sequence = maxSequence) → e.sequence ≠ maxSequence) :
    refusal first passed e = offence first.toNat passed e := by
  by_cases hend : ∃ d ∈ passed.getLast?, d.sequence = maxSequence
  · -- past the end every other sequence is a gap, for the walk and in truth
    have hlt := (last_eq_max_iff h).mp hend
    have hne : e.sequence.toNat ≠ maxSequence.toNat := fun heq =>
      he hend (UInt64.toNat_inj.mp heq)
    have hle := toNat_le_max e.sequence
    rw [refusal, offence, awaited, Nat.min_eq_right (Nat.le_of_lt hlt), if_pos hne,
      if_pos (by omega)]
  · rw [refusal, offence, (awaited_eq_iff h).mpr hend]

/-- Where nothing overruns, the report is exact. -/
theorem Reported.exact {r : Report} (h : Reported first last es r) (hover : ¬Overrun first es) :
    Exact first last es r where
  range := h.range
  intact_iff := by
    rw [h.intact_iff]
    exact ⟨fun hes => hes.isSlice_or_overrun.resolve_right hover, unbroken_of_isSlice⟩
  passed := by
    obtain ⟨passed, rest, rfl, hpassed, hchecked, hlast, hrest⟩ := h.passed
    have hslice : IsSlice first.toNat passed :=
      hpassed.isSlice_or_overrun.resolve_right fun hover' => hover (hover'.append rest)
    refine ⟨passed, rest, rfl, hslice, hchecked, hlast, ?_⟩
    intro e he
    obtain ⟨hrefused, hfinding⟩ := hrest e he
    refine ⟨fun hcontinues => hrefused (.of_continues hcontinues), ?_⟩
    rw [hfinding, refusal_eq_offence hslice]
    intro hend hmax
    obtain ⟨rest, rfl⟩ := List.head?_eq_some_iff.mp he
    exact hover ⟨passed, e, rest, rfl, hslice, hend, hmax⟩

/-- An exact report stops where a piece of a chain does. -/
theorem Exact.passed_eq {r : Report} {rest : List Entry}
    (h : Exact first last (passed ++ e :: rest) r) (hpassed : IsSlice first.toNat passed)
    (he : ¬Continues first.toNat passed e) :
    r.entriesChecked = passed.length ∧ r.finding = .violated (offence first.toNat passed e) := by
  obtain ⟨p, q, heq, hp, hchecked, -, hstop⟩ := h.passed
  -- neither of the two can go on behind the other
  obtain ⟨rfl, rfl⟩ : p = passed ∧ q = e :: rest := by
    rcases List.append_eq_append_iff.mp heq with ⟨mid, rfl, hmid⟩ | ⟨mid, rfl, rfl⟩
    · cases mid with
      | nil => exact ⟨by simp, hmid.symm⟩
      | cons d mid =>
        obtain ⟨rfl, -⟩ := List.cons.inj hmid
        have happend : passed ++ e :: mid = passed ++ [e] ++ mid := by simp
        rw [happend] at hp
        exact absurd hp.of_append.continues_of_concat he
    · cases mid with
      | nil => exact ⟨by simp, rfl⟩
      | cons d mid =>
        have happend : p ++ d :: mid = p ++ [d] ++ mid := by simp
        rw [happend] at hpassed
        exact absurd hpassed.of_append.continues_of_concat (hstop d rfl).1
  exact ⟨hchecked, (hstop e rfl).2⟩

/-- Where something overruns, the report is not exact: the walk takes the entry that has the
greatest sequence again for the next one, so it does not find the gap. -/
theorem Reported.not_exact {r : Report} (h : Reported first last es r) (hover : Overrun first es) :
    ¬Exact first last es r := by
  intro hexact
  obtain ⟨passed, e, rest, rfl, hslice, hend, hmax⟩ := hover
  have hlt := (last_eq_max_iff hslice).mp hend
  have hgap : e.sequence.toNat ≠ first.toNat + passed.length := by
    rw [hmax]
    omega
  obtain ⟨hcount, hfinding⟩ := hexact.passed_eq hslice fun he => hgap he.sequence
  obtain ⟨p, q, heq, -, hchecked, -, hstop⟩ := h.passed
  obtain ⟨rfl, rfl⟩ := List.append_inj heq (by omega)
  have hawaited : e.sequence.toNat = awaited first passed.length := by
    rw [hmax]
    exact (Nat.min_eq_right (Nat.le_of_lt hlt)).symm
  rw [(hstop e rfl).2, offence, if_pos hgap, refusal, if_neg (not_not_intro hawaited)] at hfinding
  split at hfinding
  · simp at hfinding
  · simp at hfinding

/-- **What an offline verification finds**, whatever the slice: how far it is unbroken, and what is
wrong with the entry after that.  That is the truth about chains, except for a slice in which a
piece of a chain that ends at the greatest sequence has another entry there right behind it. -/
theorem snapshot_reported (s : Snapshot) :
    let first := (s.entries.head?.map Entry.sequence).getD 0
    let last := (s.entries.getLast?.map Entry.sequence).getD first
    Reported first last s.entries (verifySnapshot s) ∧
      (Exact first last s.entries (verifySnapshot s) ↔ ¬Overrun first s.entries) := by
  intro first last
  have hreported : Reported first last s.entries (verifySnapshot s) :=
    reported_verifyEntries first last s.entries
  exact ⟨hreported, fun hexact hover => hreported.not_exact hover hexact, hreported.exact⟩

/-- Two entries at the greatest sequence, the second linked to the first. -/
def twiceGreatest : Snapshot :=
  let d := Entry.sealed maxSequence (.bare "first" "1") genesisHash
  let e := Entry.sealed maxSequence (.bare "second" "2") d.hash
  ⟨[d, e], .noon, e.hash⟩

/-- They are found intact, although they are no piece of a chain. -/
theorem snapshot_reported_twiceGreatest :
    verifySnapshot twiceGreatest = ⟨maxSequence, maxSequence, 2, some maxSequence, .intact⟩ ∧
      ¬IsSlice maxSequence.toNat twiceGreatest.entries ∧
      ¬Exact maxSequence maxSequence twiceGreatest.entries (verifySnapshot twiceGreatest) := by
  have hover : Overrun maxSequence twiceGreatest.entries := by
    refine ⟨[_], _, [], rfl, ?_, ⟨_, rfl, rfl⟩, rfl⟩
    refine (isSlice_nil _).concat ⟨rfl, ?_, rfl⟩
    intro p hp
    simp [maxSequence] at hp
  refine ⟨by decide +kernel, ?_, fun hexact => (snapshot_reported twiceGreatest).2.mp hexact hover⟩
  intro hslice
  have hsecond := hslice.sequence 1 (by decide)
  simp [twiceGreatest, Entry.sealed, maxSequence] at hsecond

end AuditChain.Verify
