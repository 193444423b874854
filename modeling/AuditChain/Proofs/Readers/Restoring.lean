import AuditChain.Proofs.Readers.Export
import AuditChain.Proofs.Store.Interchange
import AuditChain.Proofs.Store.Loading

/-!
# Restoring an exported chain

A store in memory is more than its entries: it has an index, and an export does not have it.  But
inserts keep the index in step with the entries, so that what the index has under a key can be told
from them.  Loading what was exported makes the same index again, and from then on the two stores
cannot be told apart.

A store into which a list was loaded need not be like this.  The index leads to the entry that came
last under a key, and in an export another one may come last.

## Main definitions

* `MemoryStore.Reachable` — a store that inserts and engines have filled.
* `MemoryStore.Alike` — the same entries, and the same sequences in the index.
* `MemoryStore.Indistinguishable` — no calls and no engines tell two stores apart.

## Main results

* `MemoryStore.Alike.apply` — stores that are alike answer alike, and stay alike.
* `MemoryStore.Alike.play` — programs do the same on both of them.
* `export_restores` — **an exported chain that is loaded is the store it was exported from.**
-/

namespace AuditChain

namespace MemoryStore

/-- The stores in memory that inserts and engines lead to from the empty one.  Inserts may fail;
engines may be answered in any order and with any failures, and need not have ended. -/
inductive Reachable : MemoryStore → Prop where
  | empty : Reachable .empty
  | inserts {m : MemoryStore} (hm : Reachable m) (es : List Entry) : Reachable (m.insertAll es)
  | engines {ι : Type} [DecidableEq ι] {m : MemoryStore} {policy : ι → RetryPolicy}
      {events : ι → List Event} {h : List (Move ledger ι MemoryStore)}
      {Q : Pool ledger ι MemoryStore (List (Except AuditError Outcome))} (hm : Reachable m)
      (hrun : Run Unreliable (engines m policy events) h Q) : Reachable Q.state

variable {m m' : MemoryStore}

theorem Indexed.insertAll (hm : m.Indexed) (es : List Entry) : (m.insertAll es).Indexed := by
  unfold MemoryStore.insertAll
  induction es generalizing m with
  | nil => exact hm
  | cons e es ih =>
    rw [List.foldl_cons]
    cases hins : m.insert e with
    | error err => exact ih hm
    | ok m' =>
      obtain ⟨hfree, rfl⟩ := hm.insert_eq_ok_iff.mp hins
      exact ih (hm.put hfree)

/-- Inserts keep the index in step, whoever makes them. -/
theorem Reachable.indexed (hm : m.Reachable) : m.Indexed := by
  induction hm with
  | empty => exact indexed_empty
  | inserts _ es ih => exact ih.insertAll es
  | engines _ hrun ih => exact (hrun.account ih).valid

/-! ### Stores that are alike -/

/-- Two stores have the same entries, and the index of each has the same under every key. -/
structure Alike (m m' : MemoryStore) : Prop where
  entries : m.entries = m'.entries
  lookup : ∀ key, m.index.lookup key = m'.index.lookup key

/-- Where the index is in step with the entries, it is made of them. -/
theorem Indexed.alike (hm : m.Indexed) (hm' : m'.Indexed) (hentries : m.entries = m'.entries) :
    Alike m m' where
  entries := hentries
  lookup := by
    intro key
    apply Option.ext
    intro sequence
    rw [hm key sequence, hm' key sequence, hentries]

namespace Alike

/-! ### Calls -/

theorem get? (h : Alike m m') (sequence : UInt64) : m.get? sequence = m'.get? sequence := by
  unfold MemoryStore.get?
  rw [h.entries]

theorem find? (h : Alike m m') (key : DedupKey) : m.find? key = m'.find? key := by
  unfold MemoryStore.find?
  rw [h.lookup]
  congr 1
  funext sequence
  exact h.get? sequence

theorem put (h : Alike m m') (e : Entry) : Alike (m.put e) (m'.put e) where
  entries := congrArg (place Entry.sequence e) h.entries
  lookup := by
    intro key
    rw [lookup_put, lookup_put, h.lookup]

theorem insert (h : Alike m m') (e : Entry) :
    m'.insert e = (m.insert e).map fun _ => m'.put e := by
  unfold MemoryStore.insert
  rw [h.get?, h.lookup]
  split
  · rfl
  · split <;> rfl

/-- Stores that are alike answer every call alike, and stay alike. -/
theorem reply (h : Alike m m') (cancelled : Bool) (r : Request) :
    (Store.reply cancelled r m).1 = (Store.reply cancelled r m').1 ∧
      Alike (Store.reply cancelled r m).2 (Store.reply cancelled r m').2 := by
  cases r with
  | find key => exact ⟨congrArg Except.ok (h.find? key), h⟩
  | insert e =>
    have hinsert : Store.insert m' e = (Store.insert m e).map fun _ => m'.put e := h.insert e
    cases hins : Store.insert m e with
    | error err =>
      rw [hins] at hinsert
      simp only [Store.reply, hins, hinsert, Except.map]
      exact ⟨trivial, h⟩
    | ok n =>
      rw [hins] at hinsert
      obtain rfl : n = m.put e := (insert_eq_ok_iff.mp hins).2.2
      simp only [Store.reply, hins, hinsert, Except.map]
      exact ⟨trivial, h.put e⟩
  | tail =>
    refine ⟨congrArg Except.ok ?_, h⟩
    unfold MemoryStore.tail
    rw [h.entries]
  | range first last limit =>
    refine ⟨congrArg Except.ok ?_, h⟩
    unfold MemoryStore.range
    rw [h.entries]
  | latest offset limit =>
    refine ⟨congrArg Except.ok ?_, h⟩
    unfold MemoryStore.latest
    rw [h.entries]
  | count => exact ⟨congrArg (fun es => Except.ok (List.length es)) h.entries, h⟩
  | cancelled => exact ⟨rfl, h⟩
  | pause wait => exact ⟨rfl, h⟩
  | note n => exact ⟨rfl, h⟩

/-- They do so even where they fail. -/
theorem apply (h : Alike m m') (a : Answer) (r : Request) :
    (a.apply r m).1 = (a.apply r m').1 ∧ Alike (a.apply r m).2 (a.apply r m').2 := by
  cases a with
  | serve cancelled => exact h.reply cancelled r
  | fail err => exact ⟨rfl, h⟩
  | misreport err => exact ⟨rfl, (h.reply false r).2⟩

/-- Stores that are alike answer one call after another alike, and stay alike. -/
theorem calls (h : Alike m m') (calls : List Request) :
    Store.answers calls m = Store.answers calls m' ∧
      Alike (Store.after calls m) (Store.after calls m') := by
  induction calls generalizing m m' with
  | nil => exact ⟨rfl, h⟩
  | cons r calls ih =>
    obtain ⟨hreply, hthen⟩ := h.reply false r
    obtain ⟨hanswers, hafter⟩ := ih hthen
    refine ⟨?_, hafter⟩
    rw [Store.answers, Store.answers, hreply, hanswers]

/-! ### Programs -/

/-- A program comes to the same on stores that are alike. -/
theorem run {α : Type} (h : Alike m m') (p : LedgerProgram α) (cancelled : Bool) :
    (p.run (Store.respond cancelled) m).1 = (p.run (Store.respond cancelled) m').1 ∧
      Alike (p.run (Store.respond cancelled) m).2 (p.run (Store.respond cancelled) m').2 := by
  induction p generalizing m m' with
  | done a => exact ⟨rfl, h⟩
  | crash why => exact ⟨rfl, h⟩
  | ask r next ih =>
    obtain ⟨hreply, hthen⟩ := h.reply cancelled r
    rw [Store.run_ask, Store.run_ask, hreply]
    exact ih _ hthen

variable {ι α : Type} [DecidableEq ι] {P P' : Pool ledger ι MemoryStore α}

/-- The same programs at work on stores that are alike do the same when one of them is answered. -/
theorem turn (h : Alike P.state P'.state) (hprogram : P.program = P'.program) (i : ι) (a : Answer) :
    (P.turn i a).2.program = (P'.turn i a).2.program ∧
      Alike (P.turn i a).2.state (P'.turn i a).2.state := by
  unfold Pool.turn
  rw [← hprogram]
  cases P.program i with
  | done result => exact ⟨hprogram, h⟩
  | crash why => exact ⟨hprogram, h⟩
  | ask r next =>
    obtain ⟨hreply, hthen⟩ := h.apply a r
    dsimp only
    rw [hreply]
    exact ⟨rfl, hthen⟩

/-- The same programs at work on stores that are alike do the same, however they are answered. -/
theorem play (h : Alike P.state P'.state) (hprogram : P.program = P'.program)
    (schedule : List (ι × Answer)) :
    (P.play schedule).2.program = (P'.play schedule).2.program ∧
      Alike (P.play schedule).2.state (P'.play schedule).2.state := by
  induction schedule generalizing P P' with
  | nil => exact ⟨hprogram, h⟩
  | cons turn rest ih =>
    obtain ⟨i, a⟩ := turn
    obtain ⟨hthen, halike⟩ := h.turn hprogram i a
    exact ih halike hthen

end Alike

/-! ### Stores that cannot be told apart -/

/-- Two stores cannot be told apart, neither by calls nor by what engines make of them. -/
structure Indistinguishable (m m' : MemoryStore) : Prop where
  /-- Calls made one after another are answered alike, -/
  answers : ∀ calls, Store.answers calls m = Store.answers calls m'
  /-- and so is a call for the entry at a sequence after them. -/
  get : ∀ calls sequence, Store.get (Store.after calls m) sequence =
    Store.get (Store.after calls m') sequence
  /-- Events that are submitted one after another have the same outcomes and leave the same chain,
  -/
  submissions : ∀ cancelled policy events,
    let run (m : MemoryStore) := (submissions policy events).run (Store.respond cancelled) m
    (run m).1 = (run m').1 ∧ (run m).2.entries = (run m').2.entries
  /-- and engines at work on either store have the same left to do, or the same outcomes, and the
  same chain, however they are answered. -/
  engines : ∀ (ι : Type) [DecidableEq ι] (policy : ι → RetryPolicy) (events : ι → List Event)
    (schedule : List (ι × Answer)),
    let pool (m : MemoryStore) := ((engines m policy events).play schedule).2
    (pool m).program = (pool m').program ∧ (pool m).state.entries = (pool m').state.entries

theorem Alike.indistinguishable (h : Alike m m') : Indistinguishable m m' where
  answers := fun calls => (h.calls calls).1
  get := by
    intro calls sequence
    have hreply := ((h.calls calls).2.reply false (.range sequence sequence 1)).1
    unfold Store.get
    exact congrArg (Except.map List.head?) hreply
  submissions := by
    intro cancelled policy events
    obtain ⟨hresult, halike⟩ := h.run (submissions policy events) cancelled
    exact ⟨hresult, halike.entries⟩
  engines := by
    intro ι _ policy events schedule
    have hstart : Alike (engines m policy events).state (engines m' policy events).state := h
    obtain ⟨hprogram, halike⟩ := hstart.play rfl schedule
    exact ⟨hprogram, halike.entries⟩

end MemoryStore

/-- An export of everything has all entries of a store in memory. -/
theorem exportAll_memory (m : MemoryStore) (now : Timestamp) (cancelled : Bool) :
    (Query.exportAll now).run (Store.respond cancelled) m =
      (.ok (.ok ⟨m.entries, now, terminalHash m.entries⟩), m) := by
  have hall : within Entry.sequence 0 maxSequence m.entries = m.entries := by
    apply within_eq_self
    intro e _
    exact ⟨UInt64.zero_le, UInt64.le_iff_toNat_le.mpr (Nat.le_of_lt_succ e.sequence.toNat_lt)⟩
  have hexport := exportRange_memory m now cancelled (UInt64.zero_le : 0 ≤ maxSequence)
  rwa [hall] at hexport

/-- **An exported chain that is loaded is the store it was exported from.**  Whatever inserts and
engines have filled a store in memory, an export of everything succeeds, and what was exported can
be loaded into a store that cannot be told apart from the first one. -/
theorem export_restores {m : MemoryStore} (hm : m.Reachable) (now : Timestamp) (cancelled : Bool) :
    ∃ s, (Query.exportAll now).run (Store.respond cancelled) m = (.ok (.ok s), m) ∧
      s.entries = m.entries ∧ (MemoryStore.ofEntries s.entries).Indistinguishable m := by
  refine ⟨_, exportAll_memory m now cancelled, rfl, ?_⟩
  have hindexed := hm.indexed
  have hloaded := MemoryStore.indexed_ofEntries m.ascending hindexed.keys
  exact (hloaded.alike hindexed (MemoryStore.entries_ofEntries m.ascending)).indistinguishable

/-- A store with a gap, filled out of order. -/
def outOfOrder : MemoryStore :=
  MemoryStore.empty.insertAll [.sealed 7 (.bare "first" "1") genesisHash,
    .sealed 2 (.bare "second" "1") genesisHash, .sealed 8 (.bare "first" "2") genesisHash]

theorem export_restores_after_engines :
    let m := ((engines outOfOrder (fun _ => {}) twoEngines).play (serving turns)).2.state
    m.Reachable ∧ m.entries.map Entry.sequence = [2, 7, 8, 9] ∧
      ∃ s, (Query.exportAll .noon).run (Store.respond false) m = (.ok (.ok s), m) ∧
        s.entries = m.entries ∧ (MemoryStore.ofEntries s.entries).Indistinguishable m := by
  have hreachable : MemoryStore.Reachable
      ((engines outOfOrder (fun _ => {}) twoEngines).play (serving turns)).2.state :=
    .engines (.inserts .empty _) (Pool.run_play _ (serving turns))
  exact ⟨hreachable, by decide +kernel, export_restores hreachable .noon false⟩

/-- A store into which a list was loaded may find another entry once it has been restored. -/
example :
    let es := [Entry.sealed 4 (.bare "twice" "2") "1", .sealed 3 (.bare "twice" "1") genesisHash]
    let m := MemoryStore.ofEntries es
    (m.find? ⟨"twice"⟩).map Entry.sequence = some 3 ∧
      ((MemoryStore.ofEntries m.entries).find? ⟨"twice"⟩).map Entry.sequence = some 4 := by
  decide +kernel

end AuditChain
