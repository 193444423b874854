import AuditChain.Proofs.Verify.Exact
import AuditChain.Query

/-!
# What an export gathers

An export reads its range in batches of its own size, and a slice that was exported is verified as a
list, from the sequence of its first entry on.  A verification of the store reads the same range in
other batches, from the sequence that was asked for on.  Both come to the entries of the range; so
the two reports differ only where the range begins with a gap, which the slice does not show.

## Main definitions

* `Query.Exported` — a slice has just what is stored in a range.
* `Report.Agrees` — two reports tell the same, but for the range.

## Main results

* `Query.collect_run` — reading in batches gathers what lies in the range.
* `Verify.agrees_verifySnapshot_iff` — where a verification of the slice tells the same.
* `export_agrees` — **live and offline verification agree** just if the range begins with an entry.
-/

namespace AuditChain

open Store (run_ask)

namespace Query

variable {σ : Type} [Store σ] {s : σ} {es : List Entry} {first last : UInt64}

/-! ### The loop -/

/-- **Reading in batches gathers what lies in the range.**  What is still to be read is the window
from the next sequence on, and each batch takes something off it. -/
theorem collect_run (hasc : Ascending Entry.sequence es)
    (hreads : Verify.ReadsAs s (es.map .entry) exportBatch first last) (cancelled : Bool)
    {next : UInt64} (hfirst : first ≤ next) (hnext : next ≤ last) (before : List Entry) :
    (collect next last before).run (Store.respond cancelled) s =
      (.ok (.ok (before ++ within Entry.sequence next last es)), s) := by
  -- from one batch to the next
  induction next using ahead_induction last generalizing before with
  | step next ih =>
    obtain ⟨taken, rest, hwindow, htaken, -, hfull⟩ :=
      exists_take exportBatch.toNat (within Entry.sequence next last es)
    have hread : Store.range s next last exportBatch = .ok taken := by
      rw [hreads next last hfirst hnext (UInt64.le_refl last), Verify.within_slots, ← List.map_take,
        htaken, readSlots_entries]
    rw [collect, run_ask]
    simp only [Store.reply, hread]
    rcases List.eq_nil_or_concat taken with rfl | ⟨init, newest, rfl⟩
    · -- a batch is empty only if nothing is left
      rw [hwindow, hfull (by decide), List.append_nil]
      simp [Program.run]
    · rw [List.concat_eq_append] at *
      rw [List.append_assoc, List.singleton_append] at hwindow
      have hnewest := (mem_of_within_eq hwindow).2.1
      rw [List.getLast?_concat]
      dsimp only
      split
      · rename_i hmore
        have hahead : first ≤ newest.sequence + 1 :=
          le_succ_of_le_of_lt (UInt64.le_trans hfirst hnewest) hmore.2.2
        rw [ih _ hnewest hmore.2.2 hahead (succ_within hnewest hmore.2.2).1 _,
          within_after hasc hwindow hmore.2.2, hwindow]
        simp
      · rename_i hstop
        rw [hwindow, rest_eq_nil_of_stop hasc hwindow hfull hstop]
        rfl

/-- An export of a range gathers what lies in it. -/
theorem exportRange_run (hasc : Ascending Entry.sequence es)
    (hreads : Verify.ReadsAs s (es.map .entry) exportBatch first last) (now : Timestamp)
    (cancelled : Bool) (hle : first ≤ last) :
    (exportRange now first last).run (Store.respond cancelled) s =
      (.ok (.ok ⟨within Entry.sequence first last es, now,
        terminalHash (within Entry.sequence first last es)⟩), s) := by
  rw [exportRange, if_neg (UInt64.not_lt.mpr hle),
    Program.run_bind (collect_run hasc hreads cancelled (UInt64.le_refl first) hle []),
    List.nil_append]
  rfl

/-- A slice has just what is stored in a range: its entries in ascending order, and the hash of the
last of them, if there is one. -/
structure Exported (stored : List Entry) (first last : UInt64) (s : Snapshot) : Prop where
  ascending : Ascending Entry.sequence s.entries
  mem_iff : ∀ e, e ∈ s.entries ↔ e ∈ stored ∧ first ≤ e.sequence ∧ e.sequence ≤ last
  terminalHash : ∀ e ∈ s.entries.getLast?, s.terminalHash = e.hash
  terminalHash_nil : s.entries = [] → s.terminalHash = ""

theorem exported_within (hasc : Ascending Entry.sequence es) (now : Timestamp)
    (first last : UInt64) : Exported es first last ⟨within Entry.sequence first last es, now,
      AuditChain.terminalHash (within Entry.sequence first last es)⟩ where
  ascending := hasc.within
  mem_iff := fun _ => mem_within
  terminalHash := by
    intro e he
    simp [AuditChain.terminalHash, Option.mem_def.mp he]
  terminalHash_nil := by
    intro hnil
    have hwindow : within Entry.sequence first last es = [] := hnil
    simp [AuditChain.terminalHash, hwindow]

end Query

namespace Verify

/-- Two reports tell the same, but for the range. -/
structure Report.Agrees (r r' : Report) : Prop where
  finding : r.finding = r'.finding
  entriesChecked : r.entriesChecked = r'.entriesChecked
  lastVerified : r.lastVerified = r'.lastVerified

variable {first last last' : UInt64} {es : List Entry} {e : Entry}

/-! ### Where a range ends and begins -/

/-- Where the range ends is nothing to the walk. -/
theorem Walk.agrees_conclude {w w' : Walk} (hcursor : w.cursor = w'.cursor)
    (hchecked : w.checked = w'.checked) (hlast : w.lastVerified = w'.lastVerified)
    (es : List Entry) : (conclude (w.feed es)).Agrees (conclude (w'.feed es)) := by
  induction es generalizing w w' with
  | nil => exact ⟨rfl, hchecked, hlast⟩
  | cons e es ih =>
    simp only [feed, step, hcursor]
    cases w'.cursor.check e with
    | error v => exact ⟨rfl, hchecked, hlast⟩
    | ok cursor => exact ih rfl (congrArg (· + 1) hchecked) rfl

theorem agrees_verifyEntries (first last last' : UInt64) (es : List Entry) :
    (verifyEntries first last es).Agrees (verifyEntries first last' es) := by
  unfold verifyEntries
  apply Walk.agrees_conclude
  · rfl
  · rfl
  · rfl

/-- The first entry of a range is found to be no gap if it has the sequence that the range begins
with, and only then. -/
theorem not_agrees_of_gap (hasc : Ascending Entry.sequence (e :: es)) (hgap : e.sequence ≠ first) :
    ¬(verifyEntries e.sequence last' (e :: es)).Agrees (verifyEntries first last (e :: es)) := by
  intro hagrees
  have hne : e.sequence.toNat ≠ first.toNat := fun heq => hgap (UInt64.toNat_inj.mp heq)
  have hlive : verifyEntries first last (e :: es) =
      ⟨first, last, 0, none, .violated (.sequenceGap e.sequence)⟩ := by
    have hnot : ¬Continues first.toNat [] e := fun he => hne he.sequence
    have hviolated :=
      verifyEntries_of_not_continues first last (isSlice_nil _) (by simp) hnot es
    rw [List.nil_append] at hviolated
    rw [hviolated]
    simp [offence, hne]
  obtain ⟨passed, rest, heq, -, hchecked, -, hstop⟩ :=
    (exact_verifyEntries e.sequence last' hasc).passed
  have hcount := hagrees.entriesChecked
  rw [hlive, hchecked] at hcount
  -- none has passed, so it is this entry that was found wanting, and not for its sequence
  obtain rfl := List.length_eq_zero_iff.mp hcount
  obtain rfl : e :: es = rest := heq
  have hfinding := hagrees.finding
  rw [(hstop e rfl).2, hlive] at hfinding
  simp only [offence, List.length_nil, Nat.add_zero, ne_eq, not_true_eq_false, if_false] at hfinding
  split at hfinding
  · simp at hfinding
  · simp at hfinding

/-- A verification of an exported slice tells what a verification of the range told, just if the
range begins with an entry or holds none. -/
theorem agrees_verifySnapshot_iff {s : Snapshot} (hasc : Ascending Entry.sequence s.entries)
    (first last : UInt64) : (verifySnapshot s).Agrees (verifyEntries first last s.entries) ↔
      ∀ e ∈ s.entries.head?, e.sequence = first := by
  unfold verifySnapshot
  cases hes : s.entries with
  | nil =>
    constructor
    · intro _ e he
      simp at he
    · intro _
      exact ⟨rfl, rfl, rfl⟩
  | cons e es =>
    rw [hes] at hasc
    constructor
    · intro hagrees d hd
      obtain rfl : e = d := by simpa using hd
      by_contra hgap
      exact not_agrees_of_gap hasc hgap hagrees
    · intro hhead
      obtain rfl := hhead e rfl
      exact agrees_verifyEntries _ _ _ _

end Verify

/-! ### A store in memory -/

open Verify (verify verifySnapshot)

theorem exportRange_memory (m : MemoryStore) (now : Timestamp) (cancelled : Bool)
    {first last : UInt64} (hle : first ≤ last) :
    (Query.exportRange now first last).run (Store.respond cancelled) m =
      (.ok (.ok ⟨within Entry.sequence first last m.entries, now,
        terminalHash (within Entry.sequence first last m.entries)⟩), m) :=
  Query.exportRange_run m.ascending (Verify.readsAs_memory m _ first last) now cancelled hle

/-- An ascending list begins with what has the least key that it may have, if there is such a
member. -/
theorem head?_within {es : List Entry} (hasc : Ascending Entry.sequence es) {first last : UInt64}
    (hle : first ≤ last) : (∃ e ∈ es, e.sequence = first) ↔
      ∃ e ∈ (within Entry.sequence first last es).head?, e.sequence = first := by
  constructor
  · rintro ⟨e, he, rfl⟩
    have hmem : e ∈ within Entry.sequence e.sequence last es :=
      mem_within.mpr ⟨he, UInt64.le_refl _, hle⟩
    obtain ⟨before, after, hwindow⟩ := List.append_of_mem hmem
    obtain rfl := before_eq_nil hasc hwindow (UInt64.le_refl _)
    exact ⟨e, by rw [hwindow]; rfl, rfl⟩
  · rintro ⟨e, he, heq⟩
    exact ⟨e, (mem_within.mp (List.mem_of_mem_head? he)).1, heq⟩

/-- **Live and offline verification agree.**  Whatever a store in memory holds, an export of a range
succeeds and has just the entries that are stored there.  A verification of what was exported tells
the same as a verification of the range in the store, whatever the size of its batches, just if the
first sequence of the range is stored or none of the range is. -/
theorem export_agrees (m : MemoryStore) (now : Timestamp) (cancelled : Bool) {first last : UInt64}
    (hle : first ≤ last) : ∃ s,
      (Query.exportRange now first last).run (Store.respond cancelled) m = (.ok (.ok s), m) ∧
      Query.Exported m.entries first last s ∧
      ∀ batch, ∃ r, (verify batch first last).run (Store.respond cancelled) m = (.ok (.ok r), m) ∧
        ((verifySnapshot s).Agrees r ↔ (∃ e ∈ m.entries, e.sequence = first) ∨ s.entries = []) := by
  refine ⟨_, exportRange_memory m now cancelled hle,
    Query.exported_within m.ascending now first last, ?_⟩
  intro batch
  refine ⟨_, Verify.verify_memory m batch hle cancelled, ?_⟩
  have hiff := Verify.agrees_verifySnapshot_iff
    (s := ⟨within Entry.sequence first last m.entries, now,
      terminalHash (within Entry.sequence first last m.entries)⟩) m.ascending.within first last
  refine hiff.trans ?_
  rw [head?_within m.ascending hle]
  cases hwindow : within Entry.sequence first last m.entries with
  | nil => simp
  | cons e es => simp

/-- A store in which a key comes twice and the hash of the second entry is wrong. -/
def blemished : MemoryStore :=
  .ofEntries [.sealed 3 (.bare "twice" "1") "0", ⟨4, .bare "twice" "2", "1", "2"⟩,
    .sealed 6 (.bare "once" "1") "3"]

theorem export_agrees_blemished :
    (3 : UInt64) ≤ 5 ∧ ∃ s, (Query.exportRange .noon 3 5).run (Store.respond false) blemished =
      (.ok (.ok s), blemished) ∧ Query.Exported blemished.entries 3 5 s ∧
      s.entries.map Entry.sequence = [3, 4] ∧
      ∃ r, (verify 1 3 5).run (Store.respond false) blemished = (.ok (.ok r), blemished) ∧
        r.finding = .violated (.brokenLink 4) ∧ (verifySnapshot s).Agrees r := by
  have hle : (3 : UInt64) ≤ 5 := by decide
  obtain ⟨s, hrun, hexported, hverify⟩ := export_agrees blemished .noon false hle
  obtain ⟨r, hr, hagrees⟩ := hverify 1
  have hstored : ∃ e ∈ blemished.entries, e.sequence = 3 := by decide +kernel
  refine ⟨hle, s, hrun, hexported, ?_, r, hr, ?_, hagrees.mpr (.inl hstored)⟩
  · have hs := (exportRange_memory blemished .noon false hle).symm.trans hrun
    simp only [Prod.mk.injEq, Except.ok.injEq, and_true] at hs
    rw [← hs]
    decide +kernel
  · have hreport := (Verify.verify_memory blemished 1 hle false).symm.trans hr
    simp only [Prod.mk.injEq, Except.ok.injEq, and_true] at hreport
    rw [← hreport]
    decide +kernel

end AuditChain
