import AuditChain.Proofs.Append.Engines
import AuditChain.Proofs.Readers.Growth
import AuditChain.Proofs.Verify.Exact
import AuditChain.Query

/-!
# Readers beside writers

A verification and an export read a range in batches, and entries may be appended between any two
of their calls.  They are not disturbed: both loops keep it true that what they have read is what
the range begins with, however far the chain has grown.  In the end a verification has found a
range intact and an export has gathered one, as it was at the last read.

## Main definitions

* `rangeReads`, `Seen` — the reads of a range, and what they have shown.
* `beside` — engines at work on a store, and one reader.
* `ReaderMeets` — how far a reader has come.
* `Verify.Passes`, `Verify.PassesAll`, `Query.Gathers` — what it ends with.

## Main results

* `Verify.walkFrom_meets`, `Query.collect_meets` — what the two loops come to.
* `Run.readerMeets_of` — a reader beside engines comes to what it comes to on its own.
* `Run.readerMeets` — where the engines work on a chain, it is shown a growing one.
* `readers_undisturbed` — **readers are not disturbed by appends.**
-/

namespace AuditChain

/-! ### What readers ask -/

/-- What a reader asks of a store: anything but inserts. -/
def Request.IsReaders : Request → Prop
  | .insert _ => False
  | _ => True

/-- Whoever only reads appends nothing. -/
theorem Request.IsReaders.mayAppendAny {r : Request} (hr : r.IsReaders) (kind : Event → Prop)
    (l : Transcript ledger) : MayAppendAny kind l r := by
  cases r with
  | insert e => exact absurd hr id
  | _ => trivial

namespace Verify

theorem conclude_asks (r : Report) : (conclude r).Asks Request.IsReaders :=
  ⟨trivial, fun _ => trivial⟩

theorem stopAtRow_asks (batch : UInt64) (w : Walk) (next sequence : UInt64) :
    (stopAtRow batch w next sequence).Asks Request.IsReaders := by
  rw [stopAtRow]
  split
  · refine ⟨trivial, ?_⟩
    rintro (err | entries)
    · trivial
    · dsimp only
      split
      · exact conclude_asks _
      · exact conclude_asks _
  · exact conclude_asks _

theorem walkFrom_asks (batch last : UInt64) (w : Walk) (next : UInt64) :
    (walkFrom batch last w next).Asks Request.IsReaders := by
  induction next using ahead_induction last generalizing w with
  | step next ih =>
    rw [walkFrom]
    refine ⟨trivial, fun reply => ?_⟩
    dsimp only
    split
    · split
      · exact ⟨trivial, fun _ => stopAtRow_asks batch w next _⟩
      · trivial
    · trivial
    · split
      · exact conclude_asks _
      · refine ⟨trivial, fun _ => ?_⟩
        split
        · exact conclude_asks _
        · split
          · rename_i hmore
            exact ih _ hmore.2.1 hmore.2.2 _
          · exact conclude_asks _

theorem verify_asks (batch first last : UInt64) :
    (verify batch first last).Asks Request.IsReaders := by
  rw [verify]
  split
  · trivial
  · exact walkFrom_asks _ last _ first

theorem verifyAll_asks (batch : UInt64) : (verifyAll batch).Asks Request.IsReaders := by
  refine ⟨trivial, ?_⟩
  rintro (err | tail)
  · trivial
  · exact verify_asks batch 0 _

end Verify

namespace Query

theorem collect_asks (next last : UInt64) (before : List Entry) :
    (collect next last before).Asks Request.IsReaders := by
  induction next using ahead_induction last generalizing before with
  | step next ih =>
    rw [collect]
    refine ⟨trivial, ?_⟩
    rintro (err | entries)
    · trivial
    · dsimp only
      split
      · trivial
      · split
        · rename_i hmore
          exact ih _ hmore.2.1 hmore.2.2 _
        · trivial

theorem exportRange_asks (now : Timestamp) (first last : UInt64) :
    (exportRange now first last).Asks Request.IsReaders := by
  rw [exportRange]
  split
  · trivial
  · refine (collect_asks first last []).bind ?_
    rintro (err | entries)
    · trivial
    · exact ⟨trivial, fun _ => trivial⟩

end Query

/-! ### What readers have seen -/

section Seeing

variable {ι : Type} {own : List (Move ledger ι MemoryStore)}

/-- The call reads a range. -/
def Request.isRange : Request → Bool
  | .range _ _ _ => true
  | _ => false

/-- The moves of a reader that read a range, the last one first. -/
def rangeReads (own : List (Move ledger ι MemoryStore)) : List (Move ledger ι MemoryStore) :=
  own.filter fun m => m.exchange.request.isRange

/-- The entries are those that were in the range at the last read. -/
def LastSeen (first last : UInt64) (own : List (Move ledger ι MemoryStore))
    (es : List Entry) : Prop :=
  ∃ m, (rangeReads own).head? = some m ∧ es = within Entry.sequence first last m.before.entries

/-- What reads of a range have shown. -/
structure Seen (first last : UInt64) (own : List (Move ledger ι MemoryStore))
    (es : List Entry) : Prop where
  /-- It is a piece of a chain, without a gap from the start of the range on. -/
  slice : IsSlice first.toNat es
  /-- It begins with what was in the range at the first read. -/
  sinceFirst : ∃ m, (rangeReads own).getLast? = some m ∧
    within Entry.sequence first last m.before.entries <+: es
  /-- It is what was in the range at the last read. -/
  atLast : LastSeen first last own es

/-- Of a growing chain, what was seen last has all that was seen before. -/
theorem Growing.seen (h : Growing own) {first last : UInt64} {es : List Entry}
    (hlast : LastSeen first last own es) : Seen first last own es := by
  have hreads : Growing (rangeReads own) := h.filter _
  obtain ⟨m, hm, hes⟩ := id hlast
  obtain ⟨older, hown⟩ := List.head?_eq_some_iff.mp hm
  rw [hown] at hreads
  refine ⟨?_, ⟨(m :: older).getLast (List.cons_ne_nil m older), ?_, ?_⟩, hlast⟩
  · rw [hes]
    exact isSlice_within (hreads.chain m List.mem_cons_self).toIsSlice first last
  · rw [hown]
    exact List.getLast?_eq_some_getLast _
  · rw [hes]
    exact within_begins (hreads.begins _ (List.getLast_mem _)) first last

/-! ### The two loops on a growing chain -/

namespace Verify

variable {bound : ℕ} {i : ι} {first last next batch : UInt64} {passed : List Entry}

/-- The report on a range that holds these entries, all of which pass. -/
def passing (first last : UInt64) (es : List Entry) : Report :=
  ⟨first, last, es.length, es.getLast?.map Entry.sequence, .intact⟩

/-- The walk ends with the report on what was there at the last read. -/
def ReportsLast (first last : UInt64) (own : List (Move ledger ι MemoryStore))
    (r : Except AuditError Report) : Prop :=
  ∃ es, LastSeen first last own es ∧ r = .ok (passing first last es)

theorem conclude_meets (hroom : own.length < bound) (hseen : LastSeen first last own passed) :
    (conclude ((Walk.after first last passed).report .intact)).Meets Growing bound
      (ReportsLast first last) i own := by
  refine ⟨hroom, ?_⟩
  intro s reply s' _
  exact ⟨passed, hseen, rfl⟩

/-- **A walk beside writers passes all that is there at its last read.**  It makes two calls for
each batch, and each batch brings it closer to the end of the range. -/
theorem walkFrom_meets (hbatch : 0 < batch.toNat) (hread : ReadTo first last next passed own)
    (hroom : own.length + 2 * (last.toNat - next.toNat) + 3 ≤ bound) :
    (walkFrom batch last (Walk.after first last passed) next).Meets Growing bound
      (ReportsLast first last) i own := by
  induction next using ahead_induction last generalizing passed own with
  | step next ih =>
    rw [walkFrom]
    refine ⟨by omega, ?_⟩
    intro s reply s' hgrowing
    -- a store in memory has no rows that cannot be read
    obtain rfl := hgrowing.range_eq
    generalize htaken : (within Entry.sequence next last s.entries).take batch.toNat = taken
      at hgrowing ⊢
    dsimp only
    cases hnewest : taken.getLast? with
    | none =>
      obtain rfl := List.getLast?_eq_none_iff.mp hnewest
      have hall := hread.stop_of_nil hgrowing hbatch htaken
      refine conclude_meets ?_ ⟨_, rfl, hall.symm⟩
      rw [List.length_cons]
      omega
    | some newest =>
      have hslice := hread.isSlice hgrowing htaken
      dsimp only
      rw [Walk.feed_after last hslice hslice.ascending]
      refine ⟨by rw [List.length_cons]; omega, ?_⟩
      intro s₁ reply₁ s₁' _
      dsimp only
      split
      · rename_i hmore
        have hnext := succ_within hmore.2.1 hmore.2.2
        refine ih _ hmore.2.1 hmore.2.2 ((hread.go hgrowing htaken hnewest hmore.2.2).cons _) ?_
        rw [List.length_cons, List.length_cons]
        omega
      · rename_i hstop
        -- the decision to stop was taken on this read, so it is the last one
        have hall := hread.stop hgrowing htaken hnewest hstop
        refine conclude_meets ?_ ⟨_, rfl, hall.symm⟩
        rw [List.length_cons, List.length_cons]
        omega

theorem verify_meets (batch : UInt64) (hle : first ≤ last)
    (hroom : own.length + 2 * (last.toNat - first.toNat) + 3 ≤ bound) :
    (verify batch first last).Meets Growing bound (ReportsLast first last) i own := by
  rw [verify, if_neg (UInt64.not_lt.mpr hle), ← Walk.after_nil]
  exact walkFrom_meets (max_one_pos batch) (.start first last own) hroom

/-- The first move of a reader told it where the chain ended. -/
def ToldEnd (own : List (Move ledger ι MemoryStore)) (last : UInt64) : Prop :=
  ∃ m, own.getLast? = some m ∧ m.exchange.request = .tail ∧
    last = (m.before.tail.map ChainTail.sequence).getD 0

theorem verifyAll_meets (batch : UInt64) (hroom : 2 * maxSequence.toNat + 4 ≤ bound) :
    (verifyAll batch).Meets Growing bound
      (fun own r => ∃ last, ToldEnd own last ∧ ReportsLast 0 last own r) i [] := by
  refine ⟨by rw [List.length_nil]; omega, ?_⟩
  intro s reply s' hgrowing
  obtain rfl := hgrowing.tail_eq
  refine (verify_meets batch UInt64.zero_le ?_).imp (List.suffix_refl _) ?_
  · have hle : ((s.tail.map ChainTail.sequence).getD 0).toNat ≤ maxSequence.toNat :=
      Nat.le_of_lt_succ (UInt64.toNat_lt _)
    rw [List.length_singleton, UInt64.toNat_zero]
    omega
  · -- whatever was asked since, the tail was asked first
    rintro own r ⟨later, rfl⟩ hr
    exact ⟨_, ⟨_, List.getLast?_concat .., rfl, rfl⟩, hr⟩

end Verify

namespace Query

variable {bound : ℕ} {i : ι} {first last next : UInt64} {passed : List Entry}

/-- **A collection beside writers gathers all that is there at its last read.** -/
theorem collect_meets (hread : ReadTo first last next passed own)
    (hroom : own.length + (last.toNat - next.toNat) + 1 < bound) :
    (collect next last passed).Meets Growing bound
      (fun own r => own.length < bound ∧ ∃ es, LastSeen first last own es ∧ r = .ok es) i own := by
  induction next using ahead_induction last generalizing passed own with
  | step next ih =>
    rw [collect]
    refine ⟨by omega, ?_⟩
    intro s reply s' hgrowing
    obtain rfl := hgrowing.range_eq
    generalize htaken : (within Entry.sequence next last s.entries).take exportBatch.toNat = taken
      at hgrowing ⊢
    dsimp only
    cases hnewest : taken.getLast? with
    | none =>
      obtain rfl := List.getLast?_eq_none_iff.mp hnewest
      have hall := hread.stop_of_nil hgrowing (by decide) htaken
      refine ⟨?_, passed, ⟨_, rfl, hall.symm⟩, rfl⟩
      rw [List.length_cons]
      omega
    | some newest =>
      dsimp only
      split
      · rename_i hmore
        have hnext := succ_within hmore.2.1 hmore.2.2
        refine ih _ hmore.2.1 hmore.2.2 (hread.go hgrowing htaken hnewest hmore.2.2) ?_
        rw [List.length_cons]
        omega
      · rename_i hstop
        have hall := hread.stop hgrowing htaken hnewest hstop
        refine ⟨?_, _, ⟨_, rfl, hall.symm⟩, rfl⟩
        rw [List.length_cons]
        omega

theorem exportRange_meets (now : Timestamp) (hle : first ≤ last)
    (hroom : own.length + (last.toNat - first.toNat) + 1 < bound) :
    (exportRange now first last).Meets Growing bound
      (fun own r => ∃ es, LastSeen first last own es ∧ r = .ok ⟨es, now, terminalHash es⟩)
      i own := by
  rw [exportRange, if_neg (UInt64.not_lt.mpr hle)]
  refine (collect_meets (.start first last own) hroom).bind ?_
  rintro own r ⟨hlt, es, hseen, rfl⟩
  refine ⟨hlt, ?_⟩
  intro s reply s' _
  exact ⟨es, hseen, rfl⟩

end Query

end Seeing

/-! ### Readers beside engines -/

section Beside

variable {ι β : Type}

/-- Engines at work on a store, and one reader. -/
def beside (s : MemoryStore) (policy : ι → RetryPolicy) (events : ι → List Event)
    (reader : LedgerProgram β) :
    Pool ledger (Option ι) MemoryStore (List (Except AuditError Outcome) ⊕ β) where
  state := s
  program
    | some i => (submissions (policy i) (events i)).bind fun outcomes => .done (.inl outcomes)
    | none => reader.bind fun result => .done (.inr result)

/-- Engines append, and a reader beside them does not disturb. -/
theorem beside_appends {reader : LedgerProgram β} (hreader : reader.Asks Request.IsReaders)
    (s : MemoryStore) (policy : ι → RetryPolicy) (events : ι → List Event) (i : Option ι) :
    Appends (fun _ => True) ((beside s policy events reader).program i) [] := by
  cases i with
  | some i =>
    exact (submissions_appends (policy i) (fun _ _ => trivial) []).bind fun _ _ _ => trivial
  | none =>
    exact (hreader.obeys (fun l _ hr => hr.mayAppendAny _ l) []).bind fun _ _ _ => trivial

variable [DecidableEq ι] {m₀ : MemoryStore} {policy : ι → RetryPolicy} {events : ι → List Event}
  {reader : LedgerProgram β} {h : List (Move ledger (Option ι) MemoryStore)}
  {Q : Pool ledger (Option ι) MemoryStore (List (Except AuditError Outcome) ⊕ β)}

/-- The reader waits for an answer and has had less than `bound` of them, or it has ended with a
result that `post` allows after its moves. -/
def ReaderMeets (bound : ℕ) (post : List (Move ledger (Option ι) MemoryStore) → β → Prop)
    (h : List (Move ledger (Option ι) MemoryStore))
    (Q : Pool ledger (Option ι) MemoryStore (List (Except AuditError Outcome) ⊕ β)) : Prop :=
  match Q.program none with
  | .ask _ _ => (movesOf none h).length < bound
  | .done (.inr result) => post (movesOf none h) result
  | _ => False

/-- A reader beside engines comes to what it comes to on its own, where it is shown what it relies
on. -/
theorem Run.readerMeets_of {sees : List (Move ledger (Option ι) MemoryStore) → Prop} {bound : ℕ}
    {post post' : List (Move ledger (Option ι) MemoryStore) → β → Prop}
    (hrun : Run Serves (beside m₀ policy events reader) h Q)
    (hclosed : ∀ m own, sees (m :: own) → sees own) (hsees : sees (movesOf none h))
    (hmeets : reader.Meets sees bound post none [])
    (hpost : ∀ own result, sees own → post own result → post' own result) :
    ReaderMeets bound post' h Q := by
  -- the result of an engine is none of the reader's
  let post₀ (own : List (Move ledger (Option ι) MemoryStore)) :
      List (Except AuditError Outcome) ⊕ β → Prop
    | .inl _ => False
    | .inr result => post own result
  have hbegin :
      ((beside m₀ policy events reader).program none).Meets sees bound post₀ none [] :=
    hmeets.bind fun _ _ hresult => hresult
  have hnow := hrun.meets hbegin hclosed hsees
  unfold ReaderMeets
  cases hprogram : Q.program none with
  | ask r next =>
    rw [hprogram] at hnow
    exact hnow.1
  | crash why =>
    rw [hprogram] at hnow
    exact hnow
  | done result =>
    rw [hprogram] at hnow
    cases result with
    | inl outcomes => exact hnow
    | inr result => exact hpost _ result hsees hnow

/-- A reader beside engines comes to what it comes to where it is shown a growing chain. -/
theorem Run.readerMeets {bound : ℕ}
    {post post' : List (Move ledger (Option ι) MemoryStore) → β → Prop} (hm₀ : m₀.Indexed)
    (hchain : IsChain m₀.entries) (hreader : reader.Asks Request.IsReaders)
    (hmeets : reader.Meets Growing bound post none [])
    (hpost : ∀ own result, Growing own → post own result → post' own result)
    (hrun : Run Serves (beside m₀ policy events reader) h Q) : ReaderMeets bound post' h Q := by
  have hgrowing : Growing (movesOf none h) :=
    hrun.growing hm₀ hchain (beside_appends hreader m₀ policy events) none
  exact hrun.readerMeets_of (fun _ _ => Growing.of_cons) hgrowing hmeets hpost

/-- A verification has found intact what was seen, and has counted it. -/
def Verify.Passes (first last : UInt64) (own : List (Move ledger (Option ι) MemoryStore))
    (r : Except AuditError Verify.Report) : Prop :=
  ∃ es, Seen first last own es ∧ r = .ok (passing first last es)

/-- A verification has done so up to the end of the chain that it was told first. -/
def Verify.PassesAll (own : List (Move ledger (Option ι) MemoryStore))
    (r : Except AuditError Verify.Report) : Prop :=
  ∃ last, ToldEnd own last ∧ Passes 0 last own r

/-- An export has gathered what was seen, and that is found intact. -/
def Query.Gathers (now : Timestamp) (first last : UInt64)
    (own : List (Move ledger (Option ι) MemoryStore)) (r : Except AuditError Snapshot) : Prop :=
  ∃ s, r = .ok s ∧ Seen first last own s.entries ∧ s = ⟨s.entries, now, terminalHash s.entries⟩ ∧
    (Verify.verifySnapshot s).finding = .intact

/-- **Readers are not disturbed by appends.**  A store in memory holds a chain; engines submit
events to it, and a reader verifies or exports a range, whatever the size of its batches.  In
whatever order they are answered, the reader ends after so many answers of its own.  It has found
intact, or gathered, what was in the range at its last read; that begins with what was there at its
first read, and has no gap.  A verification of everything goes as far as the chain reached when it
asked for the tail. -/
theorem readers_undisturbed (hm₀ : m₀.Indexed) (hchain : IsChain m₀.entries)
    (policy : ι → RetryPolicy) (events : ι → List Event) :
    (∀ batch first last, first ≤ last → ∀ h Q,
      Run Serves (beside m₀ policy events (Verify.verify batch first last)) h Q →
      ReaderMeets (2 * (last.toNat - first.toNat) + 3) (Verify.Passes first last) h Q) ∧
    (∀ batch h Q, Run Serves (beside m₀ policy events (Verify.verifyAll batch)) h Q →
      ReaderMeets (2 * maxSequence.toNat + 4) Verify.PassesAll h Q) ∧
    ∀ now first last, first ≤ last → ∀ h Q,
      Run Serves (beside m₀ policy events (Query.exportRange now first last)) h Q →
      ReaderMeets (last.toNat - first.toNat + 2) (Query.Gathers now first last) h Q := by
  refine ⟨?_, ?_, ?_⟩
  · intro batch first last hle h Q hrun
    refine hrun.readerMeets hm₀ hchain (Verify.verify_asks batch first last)
      (Verify.verify_meets batch hle (by rw [List.length_nil]; omega)) ?_
    rintro own r hgrowing ⟨es, hlast, hr⟩
    exact ⟨es, hgrowing.seen hlast, hr⟩
  · intro batch h Q hrun
    refine hrun.readerMeets hm₀ hchain (Verify.verifyAll_asks batch)
      (Verify.verifyAll_meets batch (Nat.le_refl _)) ?_
    rintro own r hgrowing ⟨last, htold, es, hlast, hr⟩
    exact ⟨last, htold, es, hgrowing.seen hlast, hr⟩
  · intro now first last hle h Q hrun
    refine hrun.readerMeets hm₀ hchain (Query.exportRange_asks now first last)
      (Query.exportRange_meets now hle (by rw [List.length_nil]; omega)) ?_
    rintro own r hgrowing ⟨es, hlast, hr⟩
    have hseen := hgrowing.seen hlast
    exact ⟨_, hr, hseen, rfl, Verify.verifySnapshot_of_isSlice hseen.slice⟩

end Beside

/-- A store with one entry. -/
def oneEntry : MemoryStore :=
  .ofEntries (chainOf [.bare "first" "1"])

/-- A reader of that store, beside an engine with another event. -/
def duringAppend {β : Type} (reader : LedgerProgram β) :
    Pool ledger (Option Unit) MemoryStore (List (Except AuditError Outcome) ⊕ β) :=
  beside oneEntry (fun _ => {}) (fun _ => [.bare "second" "1"]) reader

/-- The reader is answered once, then the event is appended, then the reader is answered again. -/
def readerTurns : List (Option Unit × Answer) :=
  (none, .serve false) :: List.replicate 9 (some (), .serve false) ++
    List.replicate 9 (none, .serve false)

/-- What the reader has ended with. -/
def readerResult {ε β : Type}
    (Q : Pool ledger (Option Unit) MemoryStore (List (Except AuditError Outcome) ⊕ Except ε β)) :
    Option β :=
  match Q.program none with
  | .done (.inr (.ok result)) => some result
  | _ => none

theorem readers_undisturbed_during_append :
    let range := (duringAppend (Verify.verify 1 0 10)).play readerTurns
    let all := (duringAppend (Verify.verifyAll 1)).play readerTurns
    let slice := (duringAppend (Query.exportRange .noon 0 maxSequence)).play readerTurns
    oneEntry.Indexed ∧ IsChain oneEntry.entries ∧ (0 : UInt64) ≤ 10 ∧ 0 ≤ maxSequence ∧
      ((readerResult range.2).map Verify.Report.entriesChecked = some 2 ∧
        ReaderMeets 23 (Verify.Passes 0 10) range.1 range.2) ∧
      ((readerResult all.2).map Verify.Report.entriesChecked = some 1 ∧
        ReaderMeets (2 * maxSequence.toNat + 4) Verify.PassesAll all.1 all.2) ∧
      ((readerResult slice.2).map (fun s => s.entries.map Entry.sequence) = some [0] ∧
        ReaderMeets (maxSequence.toNat - 0 + 2) (Query.Gathers .noon 0 maxSequence)
          slice.1 slice.2) := by
  have hchain : IsChain (chainOf [.bare "first" "1"]) :=
    isChain_chainOf (by decide) (by decide)
  have hindexed : oneEntry.Indexed :=
    MemoryStore.indexed_ofEntries hchain.toIsSlice.ascending hchain.keys
  have hentries : IsChain oneEntry.entries := by
    rw [oneEntry, MemoryStore.entries_ofEntries hchain.toIsSlice.ascending]
    exact hchain
  have hserve : ∀ turn ∈ readerTurns, turn.2 = .serve false := by decide
  have hrun {β : Type} (reader : LedgerProgram β) : Run Serves (duringAppend reader)
      ((duringAppend reader).play readerTurns).1 ((duringAppend reader).play readerTurns).2 := by
    refine (duringAppend reader).run_play_of readerTurns fun turn hturn r s => ?_
    rw [hserve turn hturn]
    exact ⟨false, rfl⟩
  obtain ⟨hrange, hall, hslice⟩ := readers_undisturbed hindexed hentries
    (fun _ : Unit => {}) (fun _ => [.bare "second" "1"])
  refine ⟨hindexed, hentries, by decide, by decide, ⟨by decide +kernel, ?_⟩,
    ⟨by decide +kernel, ?_⟩, by decide +kernel, ?_⟩
  · exact hrange 1 0 10 (by decide) _ _ (hrun _)
  · exact hall 1 _ _ (hrun _)
  · exact hslice .noon 0 maxSequence (by decide) _ _ (hrun _)

end AuditChain
