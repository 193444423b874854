import AuditChain.Proofs.Append.Told
import AuditChain.Proofs.Store.Unaltered
import Mathlib.Data.List.Perm.Subperm

/-!
# The two stores are interchangeable

A store in memory and a table that were filled by the same calls answer the next call alike.  The
table has rows where the other store has entries, cuts bounds down to the range of its primary keys
and reads rows back as texts; none of this shows, as long as sequences are primary keys and years
are plain, but for one thing: what the table gives is entries as they are shown.  So whoever works on
one of the stores could as well work on the other: the engines that append to them do the same on
both, whichever of them is answered when.

## Main definitions

* `Request.Common` — a call that both stores can take.
* `Mirrors` — a table has the rows of the entries that a store in memory has.
* `Store.answers`, `Store.after` — calls made one after another.
* `Interchangeable` — what the two stores have in common after the same calls.

## Main results

* `Mirrors.reply` — stores that mirror each other answer alike, and go on doing so.
* `InStep.play` — programs that append do the same on both of them.
* `stores_interchangeable` — **the two stores are interchangeable**, up to what is shown.
* `stores_differ` — they differ beyond that, and beyond the last primary key.
-/

namespace AuditChain

open LawfulStore (Valid held)

/-! ### Stores that mirror each other -/

/-- The call is an insert. -/
def Request.isInsert : Request → Bool
  | .insert _ => true
  | _ => false

/-- The number of inserts among calls. -/
def inserts (calls : List Request) : Nat :=
  calls.countP Request.isInsert

/-- A call that both stores can take: what is inserted has a primary key for its sequence and a
plain year, and a range begins within the primary keys. -/
def Request.Common : Request → Prop
  | .insert e => (e.sequence.toNat : Int) ≤ maxRowid ∧ e.event.occurredAt.HasPlainYear
  | .range first _ _ => (first.toNat : Int) ≤ maxRowid
  | _ => True

instance : DecidablePred Request.Common
  | .insert e => inferInstanceAs (Decidable ((e.sequence.toNat : Int) ≤ maxRowid ∧
      e.event.occurredAt.HasPlainYear))
  | .range first _ _ => inferInstanceAs (Decidable ((first.toNat : Int) ≤ maxRowid))
  | .find _ | .tail | .latest _ _ | .count | .cancelled | .pause _ | .note _ => .isTrue trivial

/-- No bound of the call is cut down by a table. -/
def Request.Bounded : Request → Prop
  | .range _ _ limit => (limit.toNat : Int) ≤ maxRowid
  | .latest offset limit => (offset.toNat : Int) ≤ maxRowid ∧ (limit.toNat : Int) ≤ maxRowid
  | _ => True

/-- A table has the rows of the entries that a store in memory has, can be written, and can read
all its rows back. -/
structure Mirrors (m : MemoryStore) (t : Table) : Prop where
  /-- The index of the store in memory is in step. -/
  indexed : m.Indexed
  /-- The rows are those of the entries. -/
  holds : t.Holds m.entries
  /-- All years are plain. -/
  plain : ∀ e ∈ m.entries, e.event.occurredAt.HasPlainYear
  /-- Nothing keeps writers out of the table. -/
  writable : t.refusal = none ∧ t.frozen = none

theorem mirrors_empty : Mirrors .empty .empty where
  indexed := MemoryStore.indexed_empty
  holds := Table.holds_empty
  plain := fun _ he => absurd he List.not_mem_nil
  writable := ⟨rfl, rfl⟩

/-- A bound that is cut down is as good as the whole one for a list of so few members. -/
theorem take_clamp {α : Type} {xs : List α} {n : UInt64}
    (h : (xs.length : Int) ≤ maxRowid ∨ (n.toNat : Int) ≤ maxRowid) :
    xs.take (Table.clamp n).toNat = xs.take n.toNat := by
  by_cases hle : (n.toNat : Int) ≤ maxRowid
  · rw [Table.clamp_of_le hle, Int.toNat_natCast]
  · have hgt := Int.not_le.mp hle
    have hfew := h.resolve_right hle
    rw [Table.clamp_of_lt hgt, List.take_of_length_le (by omega), List.take_of_length_le (by omega)]

theorem drop_clamp {α : Type} {xs : List α} {n : UInt64}
    (h : (xs.length : Int) ≤ maxRowid ∨ (n.toNat : Int) ≤ maxRowid) :
    xs.drop (Table.clamp n).toNat = xs.drop n.toNat := by
  by_cases hle : (n.toNat : Int) ≤ maxRowid
  · rw [Table.clamp_of_le hle, Int.toNat_natCast]
  · have hgt := Int.not_le.mp hle
    have hfew := h.resolve_right hle
    rw [Table.clamp_of_lt hgt, List.drop_of_length_le (by omega), List.drop_of_length_le (by omega)]

namespace Mirrors

variable {m : MemoryStore} {t : Table}

/-- Rows of entries of plain years are read as these entries are shown. -/
theorem readRows_eq (h : Mirrors m t) {es : List Entry} (hes : es ⊆ m.entries) :
    readRows (es.map Row.ofEntry) = .ok (es.map Entry.shown) := by
  have hplain : ∀ e ∈ es, e.event.occurredAt.HasPlainYear := fun e he => h.plain e (hes he)
  rw [readRows_ofEntry, Table.Holds.map_slots_of_plain hplain, readSlots_entries]

/-! ### Reads -/

theorem row?_eq (h : Mirrors m t) (sequence : UInt64) :
    t.row? sequence.toNat = (m.get? sequence).map Row.ofEntry := by
  rw [Table.row?, h.holds.rows, List.find?_map, MemoryStore.get?]
  congr 2
  funext e
  rw [Bool.eq_iff_iff, Function.comp, beq_iff_eq, beq_iff_eq, ← UInt64.toNat_inj]
  exact Int.ofNat_inj

theorem rowOfKey?_eq (h : Mirrors m t) (key : DedupKey) :
    t.rowOfKey? key.text = (m.find? key).map Row.ofEntry := by
  have hfind : (m.entries.find? fun e => e.event.dedupKey = key) = m.find? key := by
    refine Option.ext fun e => ?_
    rw [h.holds.find?_eq_some_iff, h.indexed.find?_eq_some_iff]
  rw [h.holds.rowOfKey?_eq, hfind]

theorem find_eq (h : Mirrors m t) (key : DedupKey) :
    t.find key = .ok ((m.find? key).map Entry.shown) := by
  rw [Table.find, h.rowOfKey?_eq]
  cases hfind : m.find? key with
  | none => rfl
  | some e =>
    have he := (h.indexed.find?_eq_some_iff.mp hfind).1
    have hread : readRows [Row.ofEntry e] = .ok [e.shown] :=
      h.readRows_eq fun d hd => List.mem_singleton.mp hd ▸ he
    rw [Option.map_some, Option.toList_some, hread]
    rfl

theorem range_eq (h : Mirrors m t) {first last limit : UInt64}
    (hroom : (m.entries.length : Int) ≤ maxRowid ∨ (limit.toNat : Int) ≤ maxRowid)
    (hfirst : (first.toNat : Int) ≤ maxRowid) :
    t.range first last limit = .ok ((m.range first last limit).map Entry.shown) := by
  by_cases hle : first ≤ last
  · have hfew : (within Entry.sequence first last m.entries).length ≤ m.entries.length :=
      List.length_filter_le _ _
    have hshort : ((within Entry.sequence first last m.entries).length : Int) ≤ maxRowid ∨
        (limit.toNat : Int) ≤ maxRowid := hroom.imp_left fun _ => by omega
    have hplain : ∀ e ∈ within Entry.sequence first last m.entries,
        e.event.occurredAt.HasPlainYear := fun e he => h.plain e (mem_within.mp he).1
    rw [h.holds.range_eq hle hfirst, ← List.map_take, take_clamp hshort, List.map_take,
      Table.Holds.map_slots_of_plain hplain, ← List.map_take, readSlots_entries, ← List.map_take]
    rfl
  · -- nothing is between bounds that are the wrong way round
    have hlt := UInt64.not_le.mp hle
    have hnone : m.range first last limit = [] := by
      have hfilter : (m.entries.filter fun e => first ≤ e.sequence && e.sequence ≤ last) = [] := by
        refine List.filter_eq_nil_iff.mpr fun e _ hbounds => ?_
        rw [Bool.and_eq_true, decide_eq_true_eq, decide_eq_true_eq] at hbounds
        exact hle (UInt64.le_trans hbounds.1 hbounds.2)
      rw [MemoryStore.range, hfilter, List.take_nil]
    rw [Table.range, if_pos hlt, hnone]
    rfl

theorem latest_eq (h : Mirrors m t) {offset limit : UInt64}
    (hroom : (m.entries.length : Int) ≤ maxRowid ∨
      (offset.toNat : Int) ≤ maxRowid ∧ (limit.toNat : Int) ≤ maxRowid) :
    t.latest offset limit = .ok (m.latest offset limit).shown := by
  have hlen : t.rows.length = m.entries.length := by rw [h.holds.rows, List.length_map]
  have hdrop : t.rows.reverse.drop (Table.clamp offset).toNat =
      (m.entries.reverse.drop offset.toNat).map Row.ofEntry := by
    rw [h.holds.rows, ← List.map_reverse, ← List.map_drop, drop_clamp]
    rw [List.length_reverse]
    exact hroom.imp_right And.left
  have hshort : ((m.entries.reverse.drop offset.toNat).length : Int) ≤ maxRowid ∨
      (limit.toNat : Int) ≤ maxRowid := by
    rw [List.length_drop, List.length_reverse]
    exact hroom.imp (fun _ => by omega) And.right
  have hsub : (m.entries.reverse.drop offset.toNat).take limit.toNat ⊆ m.entries := by
    intro e he
    exact List.mem_reverse.mp (List.mem_of_mem_drop (List.mem_of_mem_take he))
  rw [Table.latest, hdrop, ← List.map_take, take_clamp hshort, h.readRows_eq hsub, hlen]
  rfl

/-! ### Inserts -/

theorem lookup_isSome_eq (h : Mirrors m t) (key : DedupKey) :
    (m.index.lookup key).isSome = (t.rowOfKey? key.text).isSome := by
  rw [h.rowOfKey?_eq, Option.isSome_map]
  cases hlookup : m.index.lookup key with
  | none =>
    rw [MemoryStore.find?, hlookup]
    rfl
  | some sequence =>
    obtain ⟨e, he, hkey, -⟩ := (h.indexed key sequence).mp hlookup
    rw [h.indexed.find?_eq_some_iff.mpr ⟨he, hkey⟩]
    rfl

/-- An insert fails on both stores, and for the same reason, or it succeeds on both. -/
theorem insert_eq (h : Mirrors m t) {e : Entry} (he : (e.sequence.toNat : Int) ≤ maxRowid) :
    t.insert e = (m.insert e).map fun _ => t.put (Row.ofEntry e) := by
  rw [Table.insert, if_neg (Int.not_lt.mpr he), h.writable.1, h.writable.2, MemoryStore.insert,
    h.row?_eq, Option.isSome_map, h.lookup_isSome_eq]
  dsimp only
  split
  · rfl
  · split <;> rfl

/-- What both stores take in, both have. -/
theorem put (h : Mirrors m t) {e : Entry} (hfree : IsFree e m.entries)
    (hsequence : (e.sequence.toNat : Int) ≤ maxRowid) (hplain : e.event.occurredAt.HasPlainYear) :
    Mirrors (m.put e) (t.put (Row.ofEntry e)) where
  indexed := h.indexed.put hfree
  holds := by
    have hins : t.insert e = .ok (t.put (Row.ofEntry e)) := by
      rw [h.insert_eq hsequence, h.indexed.insert_eq_ok_iff.mpr ⟨hfree, rfl⟩]
      rfl
    exact (h.holds.insert hins).2
  plain := by
    intro d hd
    rcases mem_of_mem_place hd with rfl | hd
    · exact hplain
    · exact h.plain d hd
  writable := h.writable

/-! ### Calls -/

/-- Stores that mirror each other answer every call alike, the table with entries as they are shown,
and go on mirroring each other. -/
theorem reply (h : Mirrors m t) {r : Request}
    (hroom : (m.entries.length : Int) ≤ maxRowid ∨ r.Bounded) (hr : r.Common) (cancelled : Bool) :
    (Store.reply cancelled r t).1 = r.shownReply (Store.reply cancelled r m).1 ∧
      Mirrors (Store.reply cancelled r m).2 (Store.reply cancelled r t).2 := by
  cases r with
  | find key => exact ⟨h.find_eq key, h⟩
  | tail => exact ⟨h.holds.tail_eq, h⟩
  | insert e =>
    obtain ⟨hsequence, hplain⟩ := hr
    have hinsert : Store.insert t e = (Store.insert m e).map fun _ => t.put (Row.ofEntry e) :=
      h.insert_eq hsequence
    cases hins : Store.insert m e with
    | error err =>
      rw [hins] at hinsert
      simp only [Store.reply, hins, hinsert, Except.map]
      exact ⟨rfl, h⟩
    | ok m' =>
      rw [hins] at hinsert
      obtain ⟨hfree, rfl⟩ := h.indexed.insert_eq_ok_iff.mp hins
      simp only [Store.reply, hins, hinsert, Except.map]
      exact ⟨rfl, h.put hfree hsequence hplain⟩
  | range first last limit => exact ⟨h.range_eq hroom hr, h⟩
  | latest offset limit => exact ⟨h.latest_eq hroom, h⟩
  | count =>
    refine ⟨?_, h⟩
    show Except.ok t.rows.length = Except.ok m.entries.length
    rw [h.holds.rows, List.length_map]
  | _ => exact ⟨rfl, h⟩

end Mirrors

/-- A call adds at most the entry that it inserts. -/
theorem MemoryStore.length_reply_le (m : MemoryStore) (r : Request) (cancelled : Bool) :
    (Store.reply cancelled r m).2.entries.length ≤ m.entries.length + inserts [r] := by
  cases r with
  | insert e =>
    show _ ≤ m.entries.length + 1
    cases hins : Store.insert m e with
    | error err =>
      simp only [Store.reply, hins]
      omega
    | ok m' =>
      have hput : m' = m.put e := (insert_eq_ok_iff.mp hins).2.2
      simp only [Store.reply, hins, hput]
      exact length_place_le Entry.sequence e m.entries
  | _ => exact Nat.le_refl _

/-- A call leaves all entries where they are. -/
theorem MemoryStore.Indexed.reply {m : MemoryStore} (hm : m.Indexed) (r : Request)
    (cancelled : Bool) : (Store.reply cancelled r m).2.Indexed ∧
      m.entries ⊆ (Store.reply cancelled r m).2.entries := by
  have hserved : Unreliable m ⟨r, (Store.reply cancelled r m).1⟩ (Store.reply cancelled r m).2 :=
    .inl ⟨cancelled, rfl⟩
  exact ⟨hserved.valid hm, hserved.held_subset hm⟩

/-- Where no instant is in a leap second off the minute, answers are shown as they are. -/
theorem MemoryStore.shownReply_eq {m : MemoryStore} (hm : m.Indexed)
    (hshown : ∀ e ∈ m.entries, ¬e.event.occurredAt.OffMinute) (r : Request) (cancelled : Bool) :
    r.shownReply (Store.reply cancelled r m).1 = (Store.reply cancelled r m).1 := by
  cases r with
  | find key =>
    show Except.ok ((m.find? key).map Entry.shown) = .ok (m.find? key)
    cases hfind : m.find? key with
    | none => rfl
    | some e =>
      have he := (hm.find?_eq_some_iff.mp hfind).1
      rw [Option.map_some, Entry.shown_of_not (hshown e he)]
  | range first last limit =>
    refine congrArg Except.ok (Entry.map_shown_of_not fun e he => ?_)
    exact hshown e (List.mem_of_mem_filter (List.mem_of_mem_take he))
  | latest offset limit =>
    have hitems : (m.latest offset limit).items.map Entry.shown = (m.latest offset limit).items := by
      refine Entry.map_shown_of_not fun e he => ?_
      exact hshown e (List.mem_reverse.mp (List.mem_of_mem_drop (List.mem_of_mem_take he)))
    show Except.ok (m.latest offset limit).shown = .ok (m.latest offset limit)
    rw [Slice.shown, hitems]
  | _ => rfl

/-! ### Calls made one after another -/

namespace Store

variable {σ : Type} [Store σ]

/-- What calls are answered that are made one after another. -/
def answers : List Request → σ → List (Exchange ledger)
  | [], _ => []
  | r :: calls, s => ⟨r, (reply false r s).1⟩ :: answers calls (reply false r s).2

/-- The store after calls that are made one after another. -/
def after : List Request → σ → σ
  | [], s => s
  | r :: calls, s => after calls (reply false r s).2

theorem after_append (calls later : List Request) (s : σ) :
    after (calls ++ later) s = after later (after calls s) := by
  induction calls generalizing s with
  | nil => rfl
  | cons r calls ih => exact ih _

/-- An insert that fails leaves all later answers as they would have been. -/
theorem answers_after_failure {s : σ} {e : Entry} {err : StoreError} (h : insert s e = .error err)
    (later : List Request) : answers later (after [.insert e] s) = answers later s := by
  simp only [after, reply, h]

end Store

/-- Stores that mirror each other answer calls alike, one after another. -/
theorem Mirrors.calls {m : MemoryStore} {t : Table} (h : Mirrors m t) {calls : List Request}
    (hcalls : ∀ r ∈ calls, r.Common)
    (hroom : ((m.entries.length + inserts calls : Nat) : Int) ≤ maxRowid ∨
      ∀ r ∈ calls, r.Bounded) :
    Store.answers calls t = (Store.answers calls m).map Exchange.shown ∧
      Mirrors (Store.after calls m) (Store.after calls t) := by
  induction calls generalizing m t with
  | nil => exact ⟨rfl, h⟩
  | cons r calls ih =>
    have hcount : inserts ([r] ++ calls) = inserts [r] + inserts calls := List.countP_append
    rw [List.singleton_append] at hcount
    rw [hcount] at hroom
    obtain ⟨hr, hcalls⟩ := List.forall_mem_cons.mp hcalls
    have hnow : (m.entries.length : Int) ≤ maxRowid ∨ r.Bounded :=
      hroom.imp (fun _ => by omega) fun hbounded => hbounded r List.mem_cons_self
    have hthen : (((Store.reply false r m).2.entries.length + inserts calls : Nat) : Int) ≤
        maxRowid ∨ ∀ r ∈ calls, r.Bounded := by
      have hlen := m.length_reply_le r false
      exact hroom.imp (fun _ => by omega) fun hbounded => (List.forall_mem_cons.mp hbounded).2
    obtain ⟨hreply, hmirrors⟩ := h.reply hnow hr false
    obtain ⟨hanswers, hafter⟩ := ih hmirrors hcalls hthen
    refine ⟨?_, hafter⟩
    rw [Store.answers, Store.answers, hreply, hanswers]
    rfl

/-- What is held before calls is held after them. -/
theorem MemoryStore.Indexed.subset_after {m : MemoryStore} (hm : m.Indexed)
    (calls : List Request) : m.entries ⊆ (Store.after calls m).entries := by
  induction calls generalizing m with
  | nil => exact List.Subset.refl _
  | cons r calls ih =>
    obtain ⟨hindexed, hsub⟩ := hm.reply r false
    exact List.Subset.trans hsub (ih hindexed)

/-- Calls after which no instant held is in a leap second off the minute were answered with entries
that are shown as they are. -/
theorem MemoryStore.Indexed.answers_shown {m : MemoryStore} (hm : m.Indexed) {calls : List Request}
    (hshown : ∀ e ∈ (Store.after calls m).entries, ¬e.event.occurredAt.OffMinute) :
    (Store.answers calls m).map Exchange.shown = Store.answers calls m := by
  induction calls generalizing m with
  | nil => rfl
  | cons r calls ih =>
    have hnow : ∀ e ∈ m.entries, ¬e.event.occurredAt.OffMinute :=
      fun e he => hshown e (hm.subset_after (r :: calls) he)
    rw [Store.answers, List.map_cons, ih (hm.reply r false).1 hshown, Exchange.shown]
    dsimp only
    rw [MemoryStore.shownReply_eq hm hnow]

/-! ### Engines on the two stores -/

section Engines

variable {ι α : Type} [DecidableEq ι]

/-- A schedule by which a store answers callers; each is told whether it has been cancelled. -/
def serving (schedule : List (ι × Bool)) : List (ι × Answer) :=
  schedule.map fun turn => (turn.1, .serve turn.2)

/-- Entries of distinct keys are not more than the events that they are of. -/
theorem length_le_of_events {es : List Entry} {events : List Event}
    (hkeys : es.Pairwise fun a b => a.event.dedupKey ≠ b.event.dedupKey)
    (hes : ∀ e ∈ es, e.event ∈ events) : es.length ≤ events.length := by
  have hnodup : (es.map Entry.event).Nodup := by
    rw [List.Nodup, List.pairwise_map]
    exact hkeys.imp fun hne heq => hne (congrArg Event.dedupKey heq)
  have hsub : es.map Entry.event ⊆ events := by
    intro event hevent
    obtain ⟨e, he, rfl⟩ := List.mem_map.mp hevent
    exact hes e he
  rw [← List.length_map Entry.event]
  exact (List.subperm_of_subset hnodup hsub).length_le

/-- Programs that append events of a list to an empty store, as far as they have come, and the same
programs at work on an empty table, which are told of entries as they are shown. -/
structure InStep (f : α → α) (events : List Event) (P₀ P : Pool ledger ι MemoryStore α)
    (P' : Pool ledger ι Table α) (h : List (Move ledger ι MemoryStore)) : Prop where
  empty : P₀.state = .empty
  appends : ∀ i, Appends (· ∈ events) (P₀.program i) []
  asks : ∀ i, (P₀.program i).Asks Request.IsWriters
  run : Run Unreliable P₀ h P
  program : ∀ i, (P.program i).ShownAs f (P'.program i)
  exact : (∀ e ∈ P.state.entries, ¬e.event.occurredAt.OffMinute) → P'.program = P.program
  mirrors : Mirrors P.state P'.state

namespace InStep

variable {f : α → α} {events : List Event} {P₀ P : Pool ledger ι MemoryStore α}
  {P' : Pool ledger ι Table α} {h : List (Move ledger ι MemoryStore)}

theorem chained (inv : InStep f events P₀ P P' h) : Chained P₀.state h P.state := by
  refine inv.run.chained ?_ ?_ inv.appends
  · rw [inv.empty]
    exact MemoryStore.indexed_empty
  · rw [inv.empty]
    exact isChain_nil

/-- There are no more entries than events. -/
theorem length_le (inv : InStep f events P₀ P P' h) : P.state.entries.length ≤ events.length := by
  refine length_le_of_events inv.chained.chain.keys ?_
  intro e he
  have hP₀ : Valid P₀.state := by
    rw [inv.empty]
    exact MemoryStore.indexed_empty
  rcases (inv.run.brought hP₀ inv.appends).2 e he with h0 | hevent
  · rw [inv.empty] at h0
    cases h0
  · exact hevent

/-- Both stores can take what is asked next. -/
theorem common (inv : InStep f events P₀ P P' h) (hroom : (events.length : Int) ≤ maxRowid)
    (hplain : ∀ event ∈ events, event.occurredAt.HasPlainYear) {i : ι} {r : Request}
    {next : r.Reply → LedgerProgram α} (hask : P.program i = .ask r next) : r.Common := by
  have hasks := inv.run.asks inv.asks i
  have hmay := inv.run.obeys inv.appends i
  rw [hask] at hasks hmay
  cases r with
  | insert e =>
    obtain ⟨⟨hevent, tail, sequence, previousHash, before, hl, hlink, he⟩, -⟩ := hmay
    refine ⟨?_, hplain _ hevent⟩
    -- the sequence is the length of an older chain, the beginning of the one that is held
    have htail : ⟨.tail, .ok tail⟩ ∈ transcript i h := by
      rw [hl]
      exact List.mem_cons_of_mem _ List.mem_cons_self
    obtain ⟨m, hm, -, rfl⟩ := inv.chained.account.tail_of_mem htail
    have hold := inv.chained.wasChain m hm
    have hbegins := hold.toIsSlice.prefix_of_subset inv.chained.chain.toIsSlice
      (inv.chained.account.kept_before hm)
    have hsequence : e.sequence.toNat = (held m.before).length := by
      rw [he]
      exact (hold.toIsSlice.of_nextLink hlink).1
    have hle : (held m.before).length ≤ P.state.entries.length := hbegins.length_le
    have hlength := inv.length_le
    omega
  | range _ _ _ => exact absurd hasks.1 id
  | _ => trivial

/-- The programs stay in step when one of them is answered. -/
theorem turn (inv : InStep f events P₀ P P' h) (hroom : (events.length : Int) ≤ maxRowid)
    (hplain : ∀ event ∈ events, event.occurredAt.HasPlainYear) (i : ι) (cancelled : Bool) :
    InStep f events P₀ (P.turn i (.serve cancelled)).2 (P'.turn i (.serve cancelled)).2
      ((P.turn i (.serve cancelled)).1 ++ h) := by
  have hrun := inv.run.trans (P.run_turn i (.serve cancelled))
  have hprogram := inv.program i
  cases hask : P.program i with
  | ask r next =>
    rw [hask] at hprogram
    obtain ⟨next', hask', hnext⟩ := hprogram
    have hlength := inv.length_le
    obtain ⟨hreply, hmirrors⟩ :=
      inv.mirrors.reply (.inl (by omega)) (inv.common hroom hplain hask) cancelled
    obtain ⟨-, hsub⟩ := inv.mirrors.indexed.reply r cancelled
    simp only [Pool.turn, hask, hask', Answer.apply, hreply] at hrun ⊢
    refine ⟨inv.empty, inv.appends, inv.asks, hrun, ?_, ?_, hmirrors⟩
    · intro j
      dsimp only
      by_cases hj : j = i
      · subst hj
        rw [Function.update_self, Function.update_self]
        exact hnext _
      · rw [Function.update_of_ne hj, Function.update_of_ne hj]
        exact inv.program j
    · intro hshown
      have hnow : ∀ e ∈ P.state.entries, ¬e.event.occurredAt.OffMinute :=
        fun e he => hshown e (hsub he)
      have hsame := inv.exact hnow
      obtain rfl : next' = next := by
        rw [hsame, hask] at hask'
        exact (eq_of_heq (Program.ask.inj hask').2).symm
      dsimp only
      rw [hsame, MemoryStore.shownReply_eq inv.mirrors.indexed hnow]
  | done a =>
    rw [hask] at hprogram
    have hask' : P'.program i = .done (f a) := hprogram
    simp only [Pool.turn, hask, hask'] at hrun ⊢
    exact ⟨inv.empty, inv.appends, inv.asks, hrun, inv.program, inv.exact, inv.mirrors⟩
  | crash why =>
    rw [hask] at hprogram
    have hask' : P'.program i = .crash why := hprogram
    simp only [Pool.turn, hask, hask'] at hrun ⊢
    exact ⟨inv.empty, inv.appends, inv.asks, hrun, inv.program, inv.exact, inv.mirrors⟩

/-- The programs stay in step however they are answered. -/
theorem play (inv : InStep f events P₀ P P' h) (hroom : (events.length : Int) ≤ maxRowid)
    (hplain : ∀ event ∈ events, event.occurredAt.HasPlainYear) (schedule : List (ι × Bool)) :
    ∃ h', InStep f events P₀ (P.play (serving schedule)).2 (P'.play (serving schedule)).2 h' := by
  induction schedule generalizing P P' h with
  | nil => exact ⟨h, inv⟩
  | cons turn rest ih =>
    obtain ⟨i, cancelled⟩ := turn
    exact ih (inv.turn hroom hplain i cancelled)

end InStep

/-- Engines that start on empty stores are in step. -/
theorem inStep_engines (policy : ι → RetryPolicy) {events : ι → List Event} {all : List Event}
    (hall : ∀ i, events i ⊆ all) :
    InStep (List.map (Except.map Outcome.told)) all (engines .empty policy events)
      (engines .empty policy events) (engines .empty policy events) [] where
  empty := rfl
  appends := fun i => submissions_appends (policy i) (fun _ hevent => hall i hevent) []
  asks := fun i => submissions_asks (policy i) (events i)
  run := .start
  program := fun i => submissions_shownAs (policy i) (events i)
  exact := fun _ => rfl
  mirrors := mirrors_empty

end Engines

/-! ### The two stores -/

/-- What the two stores have in common after the same calls were made of both, from empty on. -/
structure Interchangeable (calls : List Request) : Prop where
  /-- All answers were the same, but that the table gave entries as they are shown; -/
  answers : Store.answers calls Table.empty =
    (Store.answers calls MemoryStore.empty).map Exchange.shown
  /-- and so is the entry at any sequence that a primary key can be. -/
  get : ∀ sequence : UInt64, (sequence.toNat : Int) ≤ maxRowid →
    Store.get (Store.after calls Table.empty) sequence =
      (Store.get (Store.after calls MemoryStore.empty) sequence).map (Option.map Entry.shown)
  /-- If no instant that is held is in a leap second off the minute, the answers were the same as they
  are. -/
  exact : (∀ e ∈ held (Store.after calls MemoryStore.empty), ¬e.event.occurredAt.OffMinute) →
    Store.answers calls Table.empty = Store.answers calls MemoryStore.empty
  /-- An insert that fails now leaves every later answer of the store in memory as it was, -/
  failedInMemory : ∀ e err, Store.insert (Store.after calls MemoryStore.empty) e = .error err →
    ∀ later, Store.answers later (Store.after (calls ++ [.insert e]) MemoryStore.empty) =
      Store.answers later (Store.after calls MemoryStore.empty)
  /-- and every later answer of the table. -/
  failedInTable : ∀ e err, Store.insert (Store.after calls Table.empty) e = .error err →
    ∀ later, Store.answers later (Store.after (calls ++ [.insert e]) Table.empty) =
      Store.answers later (Store.after calls Table.empty)

/-- What engines that work on the two stores have in common after they were answered alike. -/
structure WorkAlike {ι : Type} (P : Pool ledger ι MemoryStore (List (Except AuditError Outcome)))
    (P' : Pool ledger ι Table (List (Except AuditError Outcome))) : Prop where
  /-- Each engine has the same left to do, or has ended with the same outcomes, but that the entries of
  its duplicates are told as they are shown. -/
  program : ∀ i, (P.program i).ShownAs (List.map (Except.map Outcome.told)) (P'.program i)
  /-- If no instant that is held is in a leap second off the minute, this holds as they are. -/
  exact : (∀ e ∈ held P.state, ¬e.event.occurredAt.OffMinute) → P'.program = P.program
  /-- The rows of the table are those of the entries that the store in memory holds, -/
  holds : P'.state.Holds (held P.state)
  /-- they are all read, as the entries are shown, -/
  reads : readRows P'.state.rows = .ok ((held P.state).map Entry.shown)
  /-- and the entries are a chain. -/
  chain : IsChain (held P.state)

/-- **The two stores are interchangeable**, up to what is shown.  Whatever calls are made of both that
both can take, the answers are equal, down to the constraint that an insert violates.  And whatever
engines submit events to both, with whatever retries, in whatever order they are answered and wherever
they are cancelled, the outcomes and the chains are equal.  Only that the table gives entries as they
are shown, which is as they are unless an instant is in a leap second off the minute.  A bound beyond
the range of primary keys is cut down to it, and that shows only where as many rows could be as there
are primary keys: so either there are fewer inserts, or no bound is cut down. -/
theorem stores_interchangeable :
    (∀ calls : List Request, (∀ r ∈ calls, r.Common) →
      ((inserts calls : Int) ≤ maxRowid ∨ ∀ r ∈ calls, r.Bounded) → Interchangeable calls) ∧
    ∀ (ι : Type) [DecidableEq ι] (policy : ι → RetryPolicy) (events : ι → List Event)
      (all : List Event), (∀ i, events i ⊆ all) → (all.length : Int) ≤ maxRowid →
      (∀ event ∈ all, event.occurredAt.HasPlainYear) → ∀ schedule : List (ι × Bool),
      WorkAlike ((engines MemoryStore.empty policy events).play (serving schedule)).2
        ((engines Table.empty policy events).play (serving schedule)).2 := by
  constructor
  · intro calls hcalls hroom
    have hfits : ((MemoryStore.empty.entries.length + inserts calls : Nat) : Int) ≤ maxRowid ∨
        ∀ r ∈ calls, r.Bounded := by
      show ((0 + inserts calls : Nat) : Int) ≤ maxRowid ∨ _
      rwa [Nat.zero_add]
    obtain ⟨hanswers, hmirrors⟩ := mirrors_empty.calls hcalls hfits
    refine ⟨hanswers, ?_, ?_, ?_, ?_⟩
    · intro sequence hsequence
      have hone : ((1 : UInt64).toNat : Int) ≤ maxRowid := by decide
      have hrange : Store.range (Store.after calls Table.empty) sequence sequence 1 =
          .ok (((Store.after calls MemoryStore.empty).range sequence sequence 1).map Entry.shown) :=
        hmirrors.range_eq (.inr hone) hsequence
      rw [Store.get, hrange, Except.map, List.head?_map]
      rfl
    · intro hshown
      rw [hanswers, MemoryStore.indexed_empty.answers_shown hshown]
    · intro e err hins later
      rw [Store.after_append, Store.answers_after_failure hins]
    · intro e err hins later
      rw [Store.after_append, Store.answers_after_failure hins]
  · intro ι _ policy events all hall hroom hplain schedule
    obtain ⟨h, inv⟩ := (inStep_engines policy hall).play hroom hplain schedule
    refine ⟨inv.program, inv.exact, inv.mirrors.holds, ?_, inv.chained.chain⟩
    rw [inv.mirrors.holds.rows]
    exact inv.mirrors.readRows_eq (List.Subset.refl _)

/-- Inserts out of order, two of which find their sequence or their key taken, and reads with bounds
that no table has. -/
def trial : List Request :=
  [.insert (.sealed 7 (.bare "first" "1") genesisHash),
    .insert (.sealed 2 (.bare "second" "1") genesisHash),
    .insert (.sealed 7 (.bare "first" "2") genesisHash),
    .insert (.sealed 8 (.bare "second" "2") genesisHash),
    .range 3 maxSequence maxSequence, .latest 1 maxSequence, .count]

/-- An engine with an event that comes twice, and one with another event. -/
def twoEngines (b : Bool) : List Event :=
  if b then [.bare "twice" "1", .bare "twice" "1"] else [.bare "once" "1"]

/-- Both read the tail of the empty store; the one whose event comes twice inserts it first. -/
def turns : List (Bool × Bool) :=
  List.replicate 4 (false, false) ++ List.replicate 9 (true, false) ++
    List.replicate 12 (false, false)

theorem stores_interchangeable_trial :
    ((∀ r ∈ trial, r.Common) ∧ inserts trial = 4 ∧
      (Store.after trial Table.empty).rows.map Row.sequence = [2, 7] ∧ Interchangeable trial) ∧
    let P := (engines MemoryStore.empty (fun _ => {}) twoEngines).play (serving turns)
    P.2.state.entries.map (fun e => e.event.dedupKey.text) = ["twice", "once"] ∧
      WorkAlike P.2 ((engines Table.empty (fun _ => {}) twoEngines).play (serving turns)).2 := by
  have hcommon : ∀ r ∈ trial, r.Common := by decide +kernel
  have hinserts : inserts trial = 4 := by decide
  refine ⟨⟨hcommon, hinserts, by decide +kernel, ?_⟩, by decide +kernel, ?_⟩
  · refine stores_interchangeable.1 trial hcommon (.inl ?_)
    rw [hinserts]
    decide
  · refine stores_interchangeable.2 Bool (fun _ => {}) twoEngines
      [.bare "twice" "1", .bare "once" "1"] ?_ (by decide) (by decide +kernel) turns
    decide +kernel

/-- An entry at the last sequence that is a primary key. -/
def lastKept : Entry := .sealed 9223372036854775807 (.bare "last" "1") genesisHash

/-- **The stores differ in what is not shown, and beyond the last primary key.**  An entry whose
instant is in a leap second off the minute is found in memory as it was inserted, and in a table as it
is shown, which is another one.  And behind an entry that has the last primary key, a submission
appends its event in memory and fails on a table. -/
theorem stores_differ :
    (let e := Entry.sealed 0 between genesisHash
      let calls := [Request.insert e]
      (∀ r ∈ calls, r.Common) ∧
        Store.find (Store.after calls MemoryStore.empty) e.event.dedupKey = .ok (some e) ∧
        Store.find (Store.after calls Table.empty) e.event.dedupKey = .ok (some e.shown) ∧
        e.shown ≠ e) ∧
    let calls := [Request.insert lastKept]
    let next := Entry.sealed 9223372036854775808 (.bare "next" "1") lastKept.hash
    let submitted := submit {} next.event
    (∀ r ∈ calls, r.Common) ∧
      (submitted.run (Store.respond false) (Store.after calls MemoryStore.empty)).1 =
        .ok (.ok (.appended next)) ∧
      (submitted.run (Store.respond false) (Store.after calls Table.empty)).1 =
        .ok (.error (Table.beyondRange next.sequence).toAuditError) := by
  refine ⟨?_, by decide +kernel⟩
  have hcommon : ∀ r ∈ [Request.insert (.sealed 0 between genesisHash)], r.Common := by
    decide +kernel
  have hoff : Timestamp.stray.OffMinute := by decide
  refine ⟨hcommon, rfl, ?_, fun hsame => Entry.shown_eq_self_iff.mp hsame hoff⟩
  obtain ⟨-, hmirrors⟩ := mirrors_empty.calls hcommon (.inl (by decide))
  exact hmirrors.find_eq _

end AuditChain
