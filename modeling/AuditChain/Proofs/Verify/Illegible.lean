import AuditChain.Proofs.Verify.Undecodable

/-!
# Where a row is not even text

Somebody has left octets in a row that are no text.  A read takes all cells of all its rows as text
before it looks at any row, so one such row fails the whole read, whatever the others say; and the
failure is that of a store that is broken, and names no row.  A verification recovers only from a
failure that names a row.  So it ends with an error and not with a finding, once it comes to a batch
with such a row; what it reports instead of the error are violations in the batches before.

## Main definitions

* `Row.fault?` — why a row is not legible, if it is not.
* `readInStages` — what rows are read as.
* `fullBatches` — how far a verification comes before a row that is not legible.
* `aborted` — what a verification answers there.

## Main results

* `readRows_eq_readInStages` — a table reads its rows in two stages.
* `walkFrom_run_of_illegible` — a walk ends before the batch that has a row that is not legible.
* `illegible_aborts` — **when a verification of rows of any cells fails**, and what it reports
  otherwise.
-/

namespace AuditChain

/-- Why the cells of a row cannot be taken as text, if they cannot. -/
def Row.fault? (r : Row) : Option CellFault :=
  match r.texts with
  | .ok _ => none
  | .error fault => some fault

theorem Row.fault?_eq_none_iff {r : Row} : r.fault? = none ↔ r.IsLegible := by
  rw [fault?, IsLegible]
  cases r.texts <;> simp

theorem Row.fault?_eq_some_iff {r : Row} {fault : CellFault} :
    r.fault? = some fault ↔ r.texts = .error fault := by
  rw [fault?]
  cases r.texts <;> simp

/-- All rows are legible, or there is a first that is not. -/
theorem legible_cases (rows : List Row) : (∀ r ∈ rows, r.IsLegible) ∨
    ∃ before r after fault, rows = before ++ r :: after ∧ (∀ d ∈ before, d.IsLegible) ∧
      r.texts = .error fault := by
  cases hfault : rows.findSome? Row.fault? with
  | none =>
    rw [List.findSome?_eq_none_iff] at hfault
    exact .inl fun r hr => Row.fault?_eq_none_iff.mp (hfault r hr)
  | some fault =>
    obtain ⟨before, r, after, heq, hr, hbefore⟩ := List.findSome?_eq_some_iff.mp hfault
    exact .inr ⟨before, r, after, fault, heq,
      fun d hd => Row.fault?_eq_none_iff.mp (hbefore d hd), Row.fault?_eq_some_iff.mp hr⟩

/-- Rows are read in two stages.  The first cell that cannot be taken as text fails the read,
wherever it stands; if there is none, the rows are read in order up to the first that is no
entry. -/
def readInStages (rows : List Row) : Except StoreError (List Entry) :=
  match rows.findSome? Row.fault? with
  | some fault => .error (.backend fault.message)
  | none => readSlots (rows.map Row.slot)

/-- A table reads its rows in two stages. -/
theorem readRows_eq_readInStages {rows : List Row} (hnonneg : ∀ r ∈ rows, 0 ≤ r.sequence) :
    readRows rows = readInStages rows := by
  rw [readInStages]
  rcases legible_cases rows with hlegible | ⟨before, r, after, fault, rfl, hbefore, hr⟩
  · have hnone : rows.findSome? Row.fault? = none :=
      List.findSome?_eq_none_iff.mpr fun r hr => Row.fault?_eq_none_iff.mpr (hlegible r hr)
    rw [hnone]
    exact readRows_eq_readSlots hnonneg hlegible
  · have hsome : (before ++ r :: after).findSome? Row.fault? = some fault :=
      List.findSome?_eq_some_iff.mpr ⟨before, r, after, rfl, Row.fault?_eq_some_iff.mpr hr,
        fun d hd => Row.fault?_eq_none_iff.mpr (hbefore d hd)⟩
    rw [hsome]
    exact readRows_of_illegible hbefore hr

/-- Legible rows are read as entries, or there is a first that is none. -/
theorem readRows_cases {rows : List Row} (hnonneg : ∀ r ∈ rows, 0 ≤ r.sequence)
    (hlegible : ∀ r ∈ rows, r.IsLegible) :
    (∃ es, rows.map Row.slot = es.map .entry ∧ rows.map Row.key = es.map Entry.sequence ∧
      readRows rows = .ok es) ∨
    ∃ before r after es reason rest, rows = before ++ r :: after ∧ es.length = before.length ∧
      rows.map Row.slot = es.map .entry ++ .unreadable r.key reason :: rest ∧
      readRows before = .ok es ∧ readRows rows = .error (.corrupt (some r.key) reason) := by
  have hkeys := Row.map_sequence_slot hnonneg
  have hread := readRows_eq_readSlots hnonneg hlegible
  rcases slots_cases (rows.map Row.slot) with ⟨es, hes⟩ | ⟨es, sequence, reason, rest, hes⟩
  · left
    rw [hes, readSlots_entries] at hread
    refine ⟨es, hes, ?_, hread⟩
    rw [← hkeys, hes, List.map_map]
    rfl
  · right
    rw [hes, readSlots_unreadable] at hread
    have hsplit := hes
    rw [List.map_eq_append_iff] at hsplit
    obtain ⟨before, tail, rfl, hbefore, htail⟩ := hsplit
    obtain ⟨r, after, rfl, hr, -⟩ := List.map_eq_cons_iff.mp htail
    obtain rfl : sequence = r.key := by
      rw [← Row.sequence_slot (hnonneg r (by simp)), hr]
      rfl
    refine ⟨before, r, after, es, reason, rest, rfl, ?_, hes, ?_, hread⟩
    · rw [← List.length_map Row.slot, hbefore, List.length_map]
    · rw [readRows_eq_readSlots (fun d hd => hnonneg d (by simp [hd]))
        (fun d hd => hlegible d (by simp [hd])), hbefore, readSlots_entries]

namespace Verify

open Store (run_ask)

/-- The rows that a verification reads before the batch that it cannot read. -/
def fullBatches {α : Type} (batch : Nat) (before : List α) : List α :=
  before.take (before.length / batch * batch)

/-- What a verification answers that comes to a row that is not legible: the violation that it has
found before that batch, or else the failure of the store. -/
def aborted (batch : Nat) (w : Walk) (before : List Row) (fault : CellFault) :
    Except AuditError Report :=
  let report := w.pass ((fullBatches batch before).map Row.slot)
  if report.finding = .intact then .error (StoreError.backend fault.message).toAuditError
  else .ok report

theorem fullBatches_of_short {α : Type} {batch : Nat} {before : List α}
    (h : before.length < batch) : fullBatches batch before = [] := by
  rw [fullBatches, Nat.div_eq_of_lt h, Nat.zero_mul, List.take_zero]

/-- One batch is read after another. -/
theorem fullBatches_append {α : Type} {batch : Nat} (hbatch : 0 < batch) {taken : List α}
    (htaken : taken.length = batch) (before : List α) :
    fullBatches batch (taken ++ before) = taken ++ fullBatches batch before := by
  rw [fullBatches, fullBatches, List.length_append, htaken, Nat.add_div_left _ hbatch,
    Nat.succ_mul, Nat.add_comm, ← htaken, List.take_length_add_append]

section Aborted

variable {batch : Nat} {w : Walk} {taken before : List Row} {fault : CellFault} {es : List Entry}

theorem aborted_of_short (h : before.length < batch) :
    aborted batch w before fault = .error (StoreError.backend fault.message).toAuditError := by
  rw [aborted, fullBatches_of_short h]
  rfl

/-- A batch of entries is fed. -/
theorem aborted_of_entries (hbatch : 0 < batch) (htaken : taken.length = batch)
    (hslots : taken.map Row.slot = es.map .entry) :
    aborted batch w (taken ++ before) fault =
      match w.feed es with
      | .error report => .ok report
      | .ok w' => aborted batch w' before fault := by
  rw [aborted, fullBatches_append hbatch htaken, List.map_append, hslots, Walk.pass_entries_append]
  cases hfeed : w.feed es with
  | error report => exact if_neg (Walk.finding_of_feed_eq_error hfeed)
  | ok w' => rfl

/-- A batch with a row that is no entry is the last. -/
theorem aborted_of_unreadable (hbatch : 0 < batch) (htaken : taken.length = batch)
    {sequence : UInt64} {reason : String} {rest : List Slot}
    (hslots : taken.map Row.slot = es.map .entry ++ .unreadable sequence reason :: rest) :
    aborted batch w (taken ++ before) fault =
      .ok (w.pass (es.map .entry ++ .unreadable sequence reason :: rest)) := by
  obtain ⟨report, hfinding, hpass⟩ := w.pass_unreadable es sequence reason
  rw [aborted, fullBatches_append hbatch htaken, List.map_append, hslots, List.append_assoc,
    List.cons_append, hpass, hpass]
  exact if_neg hfinding

end Aborted

/-! ### The loop -/

section Loop

variable {t : Table} (hrowids : ∀ r ∈ t.rows, r.sequence ≤ maxRowid)

include hrowids

/-- **A walk ends before the batch that has a row that is not legible.**  What the walk still has to
read before that row is the window from `next`; each batch takes something off it. -/
theorem walkFrom_run_of_illegible {batch last : UInt64} (hbatch : 0 < batch.toNat)
    (hlast : (last.toNat : Int) ≤ maxRowid)
    (hcut : (batch.toNat : Int) ≤ maxRowid ∨ (t.rows.length : Int) ≤ maxRowid) (cancelled : Bool)
    (w : Walk) {next : UInt64} (hnext : next ≤ last) {before after : List Row} {r : Row}
    {fault : CellFault} (hwindow : within Row.key next last t.sequenced = before ++ r :: after)
    (hbefore : ∀ d ∈ before, d.IsLegible) (hr : r.texts = .error fault) :
    (walkFrom batch last w next).run (Store.respond cancelled) t =
      (.ok (aborted batch.toNat w before fault), t) := by
  have hread : ∀ a b, a ≤ b → b ≤ last → Store.range t a b batch =
      readRows ((within Row.key a b t.sequenced).take batch.toNat) := by
    intro a b hab hb
    refine Table.range_eq_of_batch hrowids hab ?_ hcut
    rw [UInt64.le_iff_toNat_le] at hb
    omega
  have hasc := Table.ascending_sequenced hrowids
  -- from one batch to the next
  induction next using ahead_induction last generalizing w before with
  | step next ih =>
    have hbatchRead := hread next last hnext (UInt64.le_refl last)
    rw [hwindow] at hbatchRead
    by_cases hshort : before.length < batch.toNat
    · -- the row is in this batch
      obtain ⟨k, hk⟩ := Nat.exists_eq_add_of_lt hshort
      have htake : (before ++ r :: after).take batch.toNat = before ++ r :: after.take k := by
        rw [hk, Nat.add_assoc, List.take_length_add_append, List.take_succ_cons]
      rw [htake, readRows_of_illegible hbefore hr] at hbatchRead
      rw [walkFrom, run_ask]
      simp only [Store.reply, hbatchRead]
      rw [aborted_of_short hshort]
      rfl
    · obtain ⟨taken, before, rfl, htaken⟩ : ∃ taken before', before = taken ++ before' ∧
          taken.length = batch.toNat := by
        refine ⟨_, _, (List.take_append_drop batch.toNat before).symm, ?_⟩
        rw [List.length_take]
        omega
      rw [List.append_assoc] at hwindow hbatchRead
      rw [← htaken, List.take_left] at hbatchRead
      have hmem : ∀ d ∈ taken, d ∈ t.sequenced := by
        intro d hd
        have hwithin : d ∈ within Row.key next last t.sequenced := by
          rw [hwindow]
          exact List.mem_append_left _ hd
        exact (mem_within.mp hwithin).1
      rw [List.forall_mem_append] at hbefore
      rcases readRows_cases (fun d hd => (Table.mem_sequenced.mp (hmem d hd)).2) hbefore.1 with
        ⟨es, hslots, hkeys, hes⟩ |
        ⟨earlier, x, later, es, reason, rest, rfl, hlength, hslots, hearlier, hcorrupt⟩
      · rw [hes] at hbatchRead
        rw [walkFrom_run_of_entries hbatch hasc cancelled w
          (fun w' => .ok (aborted batch.toNat w' before fault)) hbatchRead hwindow hkeys,
          aborted_of_entries hbatch htaken hslots]
        · cases w.feed es <;> rfl
        · exact fun hlt => absurd htaken (Nat.ne_of_lt hlt)
        · intro newest w' hnewest hlt hrest
          exact ih newest hnewest hlt w' (succ_within hnewest hlt).1 hrest hbefore.2
        · exact fun hnil => absurd hnil (by simp)
      · rw [hcorrupt] at hbatchRead
        rw [List.append_assoc, List.cons_append] at hwindow
        rw [aborted_of_unreadable hbatch htaken hslots]
        refine walkFrom_run_of_unreadable hasc cancelled w hbatchRead hwindow ?_ hlength rest
        intro b hb hle hwithin
        have hfew : earlier.length ≤ batch.toNat := by
          rw [← htaken, List.length_append]
          omega
        rw [hread next b hb hle, hwithin, List.take_of_length_le hfew, hearlier]

/-- A verification of a range ends before the batch that has a row that is not legible. -/
theorem verify_run_of_illegible {first last : UInt64} (hle : first ≤ last)
    (hlast : (last.toNat : Int) ≤ maxRowid) {batch : UInt64}
    (hcut : (batch.toNat : Int) ≤ maxRowid ∨ (t.rows.length : Int) ≤ maxRowid) (cancelled : Bool)
    {before after : List Row} {r : Row} {fault : CellFault}
    (hwindow : within Row.key first last t.sequenced = before ++ r :: after)
    (hbefore : ∀ d ∈ before, d.IsLegible) (hr : r.texts = .error fault) :
    (verify batch first last).run (Store.respond cancelled) t =
      (.ok (aborted (max batch.toNat 1) (Walk.start first last) before fault), t) := by
  have hmax := toNat_max_one batch
  have hone : (1 : Int) ≤ maxRowid := by decide
  rw [verify, if_neg (UInt64.not_lt.mpr hle), walkFrom_run_of_illegible hrowids (by omega) hlast
    (hcut.imp_left (by omega)) cancelled _ hle hwindow hbefore hr, hmax]

end Loop

/-- **When a verification of rows of any cells fails**, and what it reports otherwise.  Let the
cells of a table hold anything.

* A read answers with a failure of the store as soon as one of its rows is not legible, and names
  no row; only if all are legible does it name the first that is no entry as corrupt.
* A verification of a range without such a row reports how far its rows are a piece of a chain.
* Where there is such a row, it reports that of the full batches before, if they show a violation;
  else it fails as the read does. -/
theorem illegible_aborts {t : Table} (hnonneg : ∀ r ∈ t.rows, 0 ≤ r.sequence)
    (hrowids : ∀ r ∈ t.rows, r.sequence ≤ maxRowid) :
    (∀ a b limit, a ≤ b → (a.toNat : Int) ≤ maxRowid → t.range a b limit =
      readInStages ((within Row.key a b t.rows).take (Table.clamp limit).toNat)) ∧
    (∀ sequence, (sequence.toNat : Int) ≤ maxRowid → Store.get t sequence =
      (readInStages ((within Row.key sequence sequence t.rows).take 1)).map List.head?) ∧
    (∀ key, t.find key = (readInStages (t.rowOfKey? key.text).toList).map List.head?) ∧
    (∀ offset limit, t.latest offset limit =
      (readInStages ((t.rows.reverse.drop (Table.clamp offset).toNat).take
        (Table.clamp limit).toNat)).map fun items => ⟨items, t.rows.length⟩) ∧
    ∀ (batch first last : UInt64) (cancelled : Bool), first ≤ last → (last.toNat : Int) ≤ maxRowid →
      (batch.toNat : Int) ≤ maxRowid ∨ (t.rows.length : Int) ≤ maxRowid →
    ∃ answer, (verify batch first last).run (Store.respond cancelled) t = (.ok answer, t) ∧
      let rows := within Row.key first last t.rows
      ((∀ r ∈ rows, r.IsLegible) →
        ∃ report, answer = .ok report ∧ Located first last (rows.map Row.slot) report) ∧
      ∀ before r after fault, rows = before ++ r :: after → (∀ d ∈ before, d.IsLegible) →
        r.texts = .error fault →
        let slots := (fullBatches (max batch.toNat 1) before).map Row.slot
        let report := (Walk.start first last).pass slots
        Located first last slots report ∧ answer = if report.finding = .intact
          then .error (StoreError.backend fault.message).toAuditError else .ok report := by
  have hall := Table.sequenced_eq hnonneg
  have hrange : ∀ a b limit, a ≤ b → (a.toNat : Int) ≤ maxRowid → t.range a b limit =
      readInStages ((within Row.key a b t.rows).take (Table.clamp limit).toNat) := by
    intro a b limit hab ha
    rw [Table.range_eq_readRows hrowids hab ha, hall]
    exact readRows_eq_readInStages
      fun r hr => hnonneg r (mem_within.mp (List.mem_of_mem_take hr)).1
  refine ⟨hrange, ?_, ?_, ?_, ?_⟩
  · intro sequence hsequence
    show (t.range sequence sequence 1).map List.head? = _
    rw [hrange _ _ _ (UInt64.le_refl _) hsequence]
    rfl
  · intro key
    have hmem : ∀ r ∈ (t.rowOfKey? key.text).toList, 0 ≤ r.sequence := fun r hr =>
      hnonneg r (List.mem_of_find?_eq_some (Option.mem_toList.mp hr))
    rw [Table.find, readRows_eq_readInStages hmem]
  · intro offset limit
    rw [Table.latest, readRows_eq_readInStages]
    exact fun r hr => hnonneg r (List.mem_reverse.mp (List.mem_of_mem_drop (List.mem_of_mem_take hr)))
  · intro batch first last cancelled hle hlast hbatch
    rw [← hall]
    have hasc : Ascending Slot.sequence
        ((within Row.key first last t.sequenced).map Row.slot) :=
      (Table.ascending_map_slot hrowids).sublist (List.filter_sublist.map _)
    have hintact := fun hlegible => Table.verify_run hrowids hlegible hle hlast hbatch cancelled
    have haborted := fun {before after r fault} =>
      @verify_run_of_illegible t hrowids first last hle hlast batch hbatch cancelled before after r
        fault
    have hfound : ∃ answer, (verify batch first last).run (Store.respond cancelled) t =
        (.ok answer, t) := by
      rcases legible_cases (within Row.key first last t.sequenced) with
        hlegible | ⟨before, r, after, fault, hwindow, hbefore, hr⟩
      · exact ⟨_, hintact hlegible⟩
      · exact ⟨_, haborted hwindow hbefore hr⟩
    obtain ⟨answer, hrun⟩ := hfound
    refine ⟨answer, hrun, fun hlegible => ?_, fun before r after fault hwindow hbefore hr => ?_⟩
    · rw [hintact hlegible] at hrun
      exact ⟨_, (Except.ok.inj (congrArg Prod.fst hrun)).symm, located_pass hasc⟩
    · rw [haborted hwindow hbefore hr] at hrun
      refine ⟨located_pass (hasc.sublist ?_), (Except.ok.inj (congrArg Prod.fst hrun)).symm⟩
      rw [hwindow]
      exact ((List.take_sublist _ _).trans (List.sublist_append_left _ _)).map _

/-- The first row of a ledger with another entity in it, and octets in the second. -/
def blotted : Table :=
  (Table.empty.put (firstRow.setCell .entityId (.text "one"))).put
    (Row.setCell { firstRow with sequence := 1 } .entityId (.blob [0]))

theorem illegible_aborts_blotted :
    let fault : StoreError := .backend "Invalid column type Blob at index: 4, name: entity_id"
    (∀ r ∈ blotted.rows, 0 ≤ r.sequence) ∧ (∀ r ∈ blotted.rows, r.sequence ≤ maxRowid) ∧
      Store.get blotted 1 = .error fault ∧
      (verify 2 0 1).run (Store.respond false) blotted =
        (.ok (.error fault.toAuditError), blotted) ∧
      (verify 1 0 1).run (Store.respond false) blotted =
        (.ok (.ok ⟨0, 1, 0, none, .violated (.hashMismatch 0)⟩), blotted) := by
  intro fault
  let altered := firstRow.setCell .entityId (.text "one")
  let octets := Row.setCell { firstRow with sequence := 1 } .entityId (.blob [0])
  have hrows : blotted.rows = [altered, octets] := rfl
  have hnonneg : ∀ r ∈ blotted.rows, 0 ≤ r.sequence := by
    rw [hrows]
    simp only [List.forall_mem_cons]
    decide
  have hrowids : ∀ r ∈ blotted.rows, r.sequence ≤ maxRowid := by
    rw [hrows]
    simp only [List.forall_mem_cons]
    decide
  obtain ⟨-, hget, -, -, hverify⟩ := illegible_aborts hnonneg hrowids
  have hone : ((1 : UInt64).toNat : Int) ≤ maxRowid := by decide
  have htwo : ((2 : UInt64).toNat : Int) ≤ maxRowid := by decide
  have hlegible : ∀ r ∈ [altered], r.IsLegible := by
    rw [List.forall_mem_singleton]
    exact ⟨_, rfl⟩
  have hoctets : octets.texts = .error (.wrongType "Blob" 4 "entity_id") := rfl
  obtain ⟨whole, hwhole, -, hfails⟩ := hverify 2 0 1 false (by decide) hone (.inl htwo)
  obtain ⟨single, hsingle, -, hreports⟩ := hverify 1 0 1 false (by decide) hone (.inl hone)
  obtain ⟨-, hwhole'⟩ := hfails [altered] octets [] _ rfl hlegible hoctets
  obtain ⟨-, hsingle'⟩ := hreports [altered] octets [] _ rfl hlegible hoctets
  -- a batch of two has both rows in it, and a batch of one only the first
  have hnone : ((Walk.start 0 1).pass ((fullBatches 2 [altered]).map Row.slot)).finding =
      .intact := by
    rw [fullBatches_of_short (by decide)]
    rfl
  have hfirst : (Walk.start 0 1).pass ((fullBatches 1 [altered]).map Row.slot) =
      ⟨0, 1, 0, none, .violated (.hashMismatch 0)⟩ := by decide +kernel
  have hviolated : ((Walk.start 0 1).pass ((fullBatches 1 [altered]).map Row.slot)).finding ≠
      .intact := by
    rw [hfirst]
    exact Finding.noConfusion
  rw [hwhole'.trans (if_pos hnone)] at hwhole
  rw [hsingle'.trans ((if_neg hviolated).trans (congrArg Except.ok hfirst))] at hsingle
  refine ⟨hnonneg, hrowids, ?_, hwhole, hsingle⟩
  rw [hget 1 hone]
  rfl

end Verify

end AuditChain
