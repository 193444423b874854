import AuditChain.Proofs.Append.NoFork
import AuditChain.Proofs.Store.RoundTrip
import AuditChain.Proofs.Verify.Exact

/-!
# A table that only writers have filled

Writers put a chain into a table, and nobody alters a row.  The chain is sound whatever the instants
of its events; but the reads of the table are not, and so neither is what rests on them.  An event of
a year with a sign is committed and then neither recognized when it comes again nor passed by a
verification, which takes its row for an altered one.  An event in a leap second off the minute is
recognized and passed, but what is given for its entry is what is shown of it.

## Main definitions

* `Table.Accounts` — how a table answers for a chain.
* `Table.Grown` — a table that has only been appended to, and what it has held on the way.

## Main results

* `Table.Holds.accounts` — every table that holds a chain answers so.
* `Table.Grown.move`, `Table.grown_of_run` — a table that is only appended to holds a chain.
* `table_round_trip` — **what is written comes back exactly if its year is plain**, and as it was
  exactly if it is shown as it is.
-/

namespace AuditChain

open Store (run_ask)
open Verify (Report Walk eq_next_iff exact_verifyEntries toNat_max_one undecodable verify verifyAll
  walkFrom_run_of_short)

/-! ### An event that comes again -/

section Again

variable {σ : Type} [Store σ] {s : σ} {event : Event}

/-- An event whose key is stored is a duplicate. -/
theorem submit_run_of_known {e : Entry} (hfind : Store.find s event.dedupKey = .ok (some e))
    (p : RetryPolicy) :
    (submit p event).run (Store.respond false) s = (.ok (.ok (.duplicate e)), s) := by
  have hpass : (attempt event).run (Store.respond false) s =
      (.ok (.ok (some (.duplicate e))), s) := by
    rw [attempt, run_ask]
    simp only [Store.reply, hfind]
    rfl
  rw [submit, submitFrom, run_ask]
  exact Program.run_bind hpass _

/-- An event whose key leads to a row that is no entry is refused. -/
theorem submit_run_of_corrupt {sequence : Option UInt64} {reason : String}
    (hfind : Store.find s event.dedupKey = .error (.corrupt sequence reason)) (p : RetryPolicy) :
    (submit p event).run (Store.respond false) s =
      (.ok (.error (.storage (StoreError.corrupt sequence reason).message)), s) := by
  have hpass : (attempt event).run (Store.respond false) s =
      (.ok (.error (.corrupt sequence reason)), s) := by
    rw [attempt, run_ask]
    simp only [Store.reply, hfind]
    rfl
  rw [submit, submitFrom, run_ask]
  exact Program.run_bind hpass _

end Again

/-! ### A table that holds a chain -/

namespace Table

/-- How a table answers for a chain that it holds. -/
structure Accounts (t : Table) (es : List Entry) : Prop where
  /-- An event that comes again is a duplicate of the committed entry, as it is shown, if the year of
  that entry is plain, -/
  known : ∀ e ∈ es, e.event.occurredAt.HasPlainYear → ∀ p event,
    event.dedupKey = e.event.dedupKey →
    (submit p event).run (Store.respond false) t = (.ok (.ok (.duplicate e.shown)), t)
  /-- and is refused otherwise. -/
  refused : ∀ e ∈ es, ¬e.event.occurredAt.HasPlainYear → ∀ p event,
    event.dedupKey = e.event.dedupKey → (submit p event).run (Store.respond false) t =
      (.ok (.error (.storage (RowFault.signedYear e).toStoreError.message)), t)
  /-- A verification of everything finds the table intact if all years are plain, -/
  intact : (∀ e ∈ es, e.event.occurredAt.HasPlainYear) → ∀ batch cancelled, ∃ r,
    (verifyAll batch).run (Store.respond cancelled) t = (.ok (.ok r), t) ∧ r.finding = .intact
  /-- and otherwise takes the first row of a year with a sign for an altered one.  A batch beyond
  the range of primary keys is cut down to it, and a batch that is not full is the last one; so
  such a batch must be beyond the number of rows as well. -/
  accused : ∀ before e after, es = before ++ e :: after →
    (∀ d ∈ before, d.event.occurredAt.HasPlainYear) → ¬e.event.occurredAt.HasPlainYear →
    ∀ batch : UInt64, (batch.toNat : Int) ≤ maxRowid ∨ (es.length : Int) ≤ maxRowid →
    ∀ cancelled, ∃ r, (verifyAll batch).run (Store.respond cancelled) t = (.ok (.ok r), t) ∧
      r.finding = .violated (.hashMismatch e.sequence)

namespace Holds

variable {t : Table} {es : List Entry}

/-- A lookup of a key that is held reads the row of its entry. -/
theorem find_of_mem (h : t.Holds es) {e : Entry} (he : e ∈ es) :
    Store.find t e.event.dedupKey =
      if e.event.occurredAt.HasPlainYear then .ok (some e.shown)
      else .error (RowFault.signedYear e).toStoreError := by
  show t.find e.event.dedupKey = _
  rw [Table.find, h.rowOfKey?_eq, h.find?_eq_some_iff.mpr ⟨he, rfl⟩, Option.map_some,
    Option.toList_some, readRows_singleton]
  split <;> rfl

/-- How far a verification of everything goes, and what it has to read. -/
theorem verifyAll_run (h : t.Holds es) (batch : UInt64) (cancelled : Bool) :
    ∃ last, (last.toNat : Int) ≤ maxRowid ∧ within Entry.sequence 0 last es = es ∧
      (verifyAll batch).run (Store.respond cancelled) t =
        (verify batch 0 last).run (Store.respond cancelled) t := by
  obtain ⟨last, hlast, hgreatest, hrun⟩ :=
    Verify.verifyAll_run (s := t) h.ascending h.tail_eq batch cancelled
  refine ⟨last, ?_, within_eq_self fun e he => ⟨UInt64.zero_le, hlast e he⟩, hrun⟩
  rcases hgreatest with ⟨-, rfl⟩ | ⟨e, he, rfl⟩
  · decide
  · exact h.rowids e he

/-- A verification of everything is a single pass over the rows as they are read. -/
theorem verifyAll_eq_pass (h : t.Holds es) {batch : UInt64}
    (hbatch : (batch.toNat : Int) ≤ maxRowid ∨ (es.length : Int) ≤ maxRowid) (cancelled : Bool) :
    ∃ last, (verifyAll batch).run (Store.respond cancelled) t =
      (.ok (.ok ((Walk.start 0 last).pass (es.map Slot.ofEntry))), t) := by
  obtain ⟨last, hlast, hwithin, hrun⟩ := h.verifyAll_run batch cancelled
  have hslots : within Slot.sequence 0 last t.slots = es.map Slot.ofEntry := by
    rw [h.slots_eq, within_ofEntry, hwithin]
  have hlength : t.rows.length = es.length := by rw [h.rows, List.length_map]
  rw [← hlength] at hbatch
  refine ⟨last, ?_⟩
  rw [hrun, h.isTextual.verify_run UInt64.zero_le hlast hbatch cancelled, hslots]

/-- Entries of plain years are read as they are shown. -/
theorem map_slots_of_plain (hplain : ∀ e ∈ es, e.event.occurredAt.HasPlainYear) :
    es.map Slot.ofEntry = (es.map Entry.shown).map Slot.entry := by
  rw [List.map_map]
  exact List.map_congr_left fun e he => Slot.ofEntry_of_plain (hplain e he)

/-- A chain of plain years is found intact. -/
theorem verifyAll_intact (h : t.Holds es) (hchain : IsChain es)
    (hplain : ∀ e ∈ es, e.event.occurredAt.HasPlainYear) (batch : UInt64) (cancelled : Bool) :
    ∃ r, (verifyAll batch).run (Store.respond cancelled) t = (.ok (.ok r), t) ∧
      r.finding = .intact := by
  have hslots := map_slots_of_plain hplain
  have hascending := h.shown.ascending
  have hslice := hchain.shown.toIsSlice
  by_cases hbatch : (batch.toNat : Int) ≤ maxRowid ∨ (es.length : Int) ≤ maxRowid
  · obtain ⟨last, hrun⟩ := h.verifyAll_eq_pass hbatch cancelled
    rw [hslots, Walk.pass_entries] at hrun
    exact ⟨_, hrun, (exact_verifyEntries 0 last hascending).intact_iff.mpr hslice⟩
  · -- the first batch is cut down, so it is taken for the last one
    obtain ⟨hlarge, hmany⟩ := not_or.mp hbatch
    obtain ⟨last, hlast, hwithin, hrun⟩ := h.verifyAll_run batch cancelled
    have hmax : maxRowid < ((max batch 1).toNat : Int) := by
      rw [toNat_max_one]
      omega
    have hread : Store.range t 0 last (max batch 1) =
        .ok ((es.map Entry.shown).take maxRowid.toNat) := by
      have hzero : ((0 : UInt64).toNat : Int) ≤ maxRowid := by decide
      show t.range 0 last (max batch 1) = _
      rw [h.range_eq UInt64.zero_le hzero, hwithin, clamp_of_lt hmax, hslots, ← List.map_take,
        readSlots_entries]
    have hshort : ((es.map Entry.shown).take maxRowid.toNat).length < (max batch 1).toNat := by
      have hle := List.length_take_le maxRowid.toNat (es.map Entry.shown)
      omega
    have hasc : Ascending Entry.sequence ((es.map Entry.shown).take maxRowid.toNat) :=
      hascending.sublist (List.take_sublist _ _)
    rw [← List.take_append_drop maxRowid.toNat (es.map Entry.shown)] at hslice
    rw [verify, if_neg (UInt64.not_lt.mpr UInt64.zero_le),
      walkFrom_run_of_short hread hshort cancelled] at hrun
    exact ⟨_, hrun, (exact_verifyEntries 0 last hasc).intact_iff.mpr hslice.of_append⟩

/-- The first row of a year with a sign is taken for an altered one. -/
theorem verifyAll_accused (h : t.Holds es) (hchain : IsChain es) {before after : List Entry}
    {e : Entry} (hes : es = before ++ e :: after)
    (hbefore : ∀ d ∈ before, d.event.occurredAt.HasPlainYear)
    (he : ¬e.event.occurredAt.HasPlainYear) {batch : UInt64}
    (hbatch : (batch.toNat : Int) ≤ maxRowid ∨ (es.length : Int) ≤ maxRowid) (cancelled : Bool) :
    ∃ r, (verifyAll batch).run (Store.respond cancelled) t = (.ok (.ok r), t) ∧
      r.finding = .violated (.hashMismatch e.sequence) := by
  obtain ⟨last, hrun⟩ := h.verifyAll_eq_pass hbatch cancelled
  have hasc := h.shown.ascending
  have hslice := hchain.shown.toIsSlice
  subst hes
  refine ⟨_, hrun, ?_⟩
  rw [List.map_append, List.map_cons] at hasc hslice
  -- the row is at its place in the chain, so it is its hash that is doubted
  have hnext : e.sequence = (Walk.after 0 last (before.map Entry.shown)).cursor.next := by
    rw [List.append_cons] at hslice
    obtain ⟨hpassed, hcontinues⟩ := isSlice_concat_iff.mp hslice.of_append
    have hiff := @eq_next_iff 0 _ last hpassed e.sequence hasc.split.1
    exact hiff.mpr hcontinues.sequence
  have hfeed : (Walk.start 0 last).feed (before.map Entry.shown) =
      .ok (Walk.after 0 last (before.map Entry.shown)) :=
    Walk.feed_start last hslice.of_append
  rw [List.map_append, List.map_cons, map_slots_of_plain hbefore, Walk.pass_entries_append, hfeed,
    Slot.ofEntry, if_neg he]
  simp only [Walk.pass, undecodable, if_pos hnext.symm]
  rfl

/-- Every table that holds a chain answers for it. -/
theorem accounts (h : t.Holds es) (hchain : IsChain es) : t.Accounts es where
  known := by
    intro e he hplain p event hkey
    refine submit_run_of_known ?_ p
    rw [hkey, h.find_of_mem he, if_pos hplain]
  refused := by
    intro e he hsigned p event hkey
    refine submit_run_of_corrupt ?_ p
    rw [hkey, h.find_of_mem he, if_neg hsigned]
    rfl
  intact := h.verifyAll_intact hchain
  accused := fun _ _ _ hes hbefore he _ hbatch => h.verifyAll_accused hchain hes hbefore he hbatch

end Holds

/-! ### A table that is only appended to -/

variable {ι : Type} {kind : Event → Prop}

/-- A table holds a chain of events of one kind, and held parts of it before every move.  Entries that
are shown alike have the same row, so it is not the table that tells which entries it was given; the
moves do. -/
structure Grown (kind : Event → Prop) (h : List (Move ledger ι Table)) (t : Table)
    (es : List Entry) : Prop where
  /-- The table holds the entries, -/
  holds : t.Holds es
  /-- which are a chain -/
  chain : IsChain es
  /-- of events of that kind. -/
  kinds : ∀ e ∈ es, kind e.event
  /-- Every move was answered. -/
  answered : ∀ m ∈ h, Unreliable m.before m.exchange m.after
  /-- Before every move a chain was held whose entries are held still. -/
  before : ∀ m ∈ h, ∃ old, m.before.Holds old ∧ IsChain old ∧ old ⊆ es

theorem grown_empty : Grown kind ([] : List (Move ledger ι Table)) .empty [] where
  holds := holds_empty
  chain := isChain_nil
  kinds := fun _ he => absurd he List.not_mem_nil
  answered := fun _ hm => absurd hm List.not_mem_nil
  before := fun _ hm => absurd hm List.not_mem_nil

namespace Grown

variable {h : List (Move ledger ι Table)} {t t' : Table} {es : List Entry}

/-- A move after which the table holds more. -/
theorem step (inv : Grown kind h t es) {es' : List Entry} (hholds : t'.Holds es')
    (hchain : IsChain es') (hkinds : ∀ e ∈ es', kind e.event) (hsub : es ⊆ es') (i : ι)
    {x : Exchange ledger} (hans : Unreliable t x t') : Grown kind (⟨i, t, x, t'⟩ :: h) t' es' where
  holds := hholds
  chain := hchain
  kinds := hkinds
  answered := List.forall_mem_cons.mpr ⟨hans, inv.answered⟩
  before := by
    refine List.forall_mem_cons.mpr ⟨⟨es, inv.holds, inv.chain, hsub⟩, ?_⟩
    intro m hm
    obtain ⟨old, hold, hwas, holder⟩ := inv.before m hm
    exact ⟨old, hold, hwas, List.Subset.trans holder hsub⟩

/-- **One move of somebody who only appends** leaves the chain as it is or puts an entry behind it. -/
theorem move [DecidableEq ι] (inv : Grown kind h t es) {i : ι} {x : Exchange ledger}
    (hask : MayAppendAny kind (transcript i h) x.request) (hans : Unreliable t x t') :
    ∃ es', Grown kind (⟨i, t, x, t'⟩ :: h) t' es' := by
  rcases hans.state_cases with rfl | ⟨e, reply, rfl, hins⟩
  · exact ⟨es, inv.step inv.holds inv.chain inv.kinds (List.Subset.refl es) i hans⟩
  · obtain ⟨hkind, tail, sequence, previousHash, before, hl, hlink, hsealed⟩ := hask
    -- the tail that the entry was sealed after is that of an older chain
    have htail : ⟨.tail, .ok tail⟩ ∈ transcript i h := by
      rw [hl]
      exact List.mem_cons_of_mem _ List.mem_cons_self
    obtain ⟨m, hm, -, hx⟩ := mem_transcript.mp htail
    obtain ⟨old, hold, hwas, hsub⟩ := inv.before m hm
    have hread : m.before.tail = .ok tail := by
      have hanswered := inv.answered m hm
      rw [hx] at hanswered
      exact hanswered.tail_eq
    obtain rfl : old.getLast?.map Entry.tail = tail := Except.ok.inj (hold.tail_eq.symm.trans hread)
    obtain ⟨hfree, hholds⟩ := inv.holds.insert hins
    rw [hsealed] at hfree hholds
    obtain ⟨happend, hchain⟩ := hwas.place_sealed inv.chain hsub hlink hfree
    rw [happend] at hholds
    refine ⟨_, inv.step hholds hchain ?_ (List.subset_append_left _ _) i hans⟩
    refine List.forall_mem_append.mpr ⟨inv.kinds, ?_⟩
    rw [List.forall_mem_singleton, ← hsealed]
    exact hkind

end Grown

end Table

/-- A table that is empty at first and is only appended to holds a chain after every run. -/
theorem Table.grown_of_run {ι α : Type} [DecidableEq ι] {P Q : Pool ledger ι Table α}
    {h : List (Move ledger ι Table)} {kind : Event → Prop} (hrun : Run Unreliable P h Q)
    (hP : P.state = .empty) (hP' : ∀ i, Appends kind (P.program i) []) :
    ∃ es, Table.Grown kind h Q.state es := by
  let inv (h : List (Move ledger ι Table)) (t : Table) : Prop := ∃ es, Table.Grown kind h t es
  show inv h Q.state
  refine hrun.invariant hP' ?_ ?_
  · rw [hP]
    exact ⟨[], Table.grown_empty⟩
  · rintro h m ⟨es, hes⟩ hask hans
    exact hes.move hask hans

/-- **What is written comes back exactly if its year is plain**, and as it was exactly if moreover its
instant is not in a leap second off the minute.  Every entry that an insert has put into a table is
given back by all reads, as it is shown, or by none.  Writers who fill an empty table together leave a
chain of their events there, and the table answers for it accordingly. -/
theorem table_round_trip {ι : Type} [DecidableEq ι] (policy : ι → RetryPolicy)
    (event : ι → Event) :
    (∀ (t t' : Table) (e : Entry), t.insert e = .ok t' →
      (if e.event.occurredAt.HasPlainYear then t'.Returns e else t'.Withholds e) ∧
      (Store.get t' e.sequence = .ok (some e) ↔
        e.event.occurredAt.HasPlainYear ∧ ¬e.event.occurredAt.OffMinute)) ∧
    ∀ (h : List (Move ledger ι Table)) (Q : Pool ledger ι Table (Except AuditError Outcome)),
      Run Unreliable (writers Table.empty policy event) h Q →
      ∃ es, Q.state.Holds es ∧ IsChain es ∧ (∀ e ∈ es, ∃ i, e.event = event i) ∧
        Q.state.Accounts es := by
  constructor
  · intro t t' e hins
    exact ⟨Table.reads_of_insert hins, Table.get_eq_self_iff hins⟩
  · intro h Q hrun
    have happends : ∀ i, Appends (fun d => ∃ i, d = event i) (submit (policy i) (event i)) [] :=
      fun i => submit_appends ⟨i, rfl⟩ (policy i) []
    obtain ⟨es, hes⟩ := Table.grown_of_run hrun rfl happends
    exact ⟨es, hes.holds, hes.chain, hes.kinds, hes.holds.accounts hes.chain⟩

/-- An event before the year zero. -/
def early : Event := .bare "early" "1" { Timestamp.noon with date := ⟨-1, 1, 1, by decide⟩ }

/-- An event after it. -/
def late : Event := .bare "late" "1"

/-- An event in a leap second between two seconds of a minute. -/
def between : Event := .bare "between" "1" .stray

/-- A writer for the event before the year zero, and one for the event after it. -/
def years : Pool ledger Bool Table (Except AuditError Outcome) :=
  writers .empty (fun _ => {}) fun b => if b then late else early

/-- One writer after the other. -/
def inTurn : List (Bool × Answer) :=
  List.replicate 6 (false, .serve false) ++ List.replicate 6 (true, .serve false)

theorem table_round_trip_years :
    let before := Entry.sealed 0 early genesisHash
    let after := Entry.sealed 0 late genesisHash
    let leap := Entry.sealed 0 between genesisHash
    (∃ t, Table.empty.insert before = .ok t ∧ t.Withholds before) ∧
    (∃ t, Table.empty.insert after = .ok t ∧ t.Returns after) ∧
    (∃ t, Table.empty.insert leap = .ok t ∧ t.Returns leap ∧ Store.get t 0 ≠ .ok (some leap)) ∧
    let t := (years.play inTurn).2.state
    t.rows.map (fun r => r.cells .dedupKey) = [.text "early", .text "late"] ∧
    ((verifyAll 256).run (Store.respond false) t).1.map (fun r => r.toOption.map Report.finding) =
      .ok (some (.violated (.hashMismatch 0))) ∧
    ∃ es, t.Holds es ∧ IsChain es ∧ t.Accounts es := by
  have hearly : ¬(Entry.sealed 0 early genesisHash).event.occurredAt.HasPlainYear := by
    show ¬early.occurredAt.HasPlainYear
    decide
  have hlate : (Entry.sealed 0 late genesisHash).event.occurredAt.HasPlainYear := by
    show late.occurredAt.HasPlainYear
    decide
  have hbetween : (Entry.sealed 0 between genesisHash).event.occurredAt.HasPlainYear := by
    show Timestamp.stray.HasPlainYear
    decide
  have hfacts := table_round_trip (ι := Bool) (fun _ => {}) fun b => if b then late else early
  refine ⟨⟨_, rfl, ?_⟩, ⟨_, rfl, ?_⟩, ⟨_, rfl, ?_, ?_⟩, by decide +kernel, by decide +kernel, ?_⟩
  · have hreads := (hfacts.1 .empty _ (.sealed 0 early genesisHash) rfl).1
    rwa [if_neg hearly] at hreads
  · have hreads := (hfacts.1 .empty _ (.sealed 0 late genesisHash) rfl).1
    rwa [if_pos hlate] at hreads
  · have hreads := (hfacts.1 .empty _ (.sealed 0 between genesisHash) rfl).1
    rwa [if_pos hbetween] at hreads
  · intro hget
    obtain ⟨-, hsame⟩ := hfacts.1 .empty _ (.sealed 0 between genesisHash) rfl
    have hoff : Timestamp.stray.OffMinute := by decide
    exact (hsame.mp hget).2 hoff
  · obtain ⟨es, hholds, hchain, -, haccounts⟩ := hfacts.2 _ _ (years.run_play inTurn)
    exact ⟨es, hholds, hchain, haccounts⟩

end AuditChain
