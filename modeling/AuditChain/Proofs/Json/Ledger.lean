import AuditChain.Json.Ledger
import AuditChain.Proofs.Json.Records
import AuditChain.Proofs.Shown
import AuditChain.Store.Memory

/-!
# What the JSON form of the ledger keeps

Events, entries, exported slices and reports are decoded from their JSON text as they are shown: texts
with any character, nothing as distinct from the empty text, words up to the greatest, and every
instant that is shown as itself, in years of any sign and on the leap seconds that end a minute.  It
does not matter whether the text is compact or has one member a line.  A slice is verified by what is
shown of it, so one that was sent as JSON is verified with the same report as the slice that was
exported.

The records are put together from what is known of the values of their members; what is left to be
seen of each is that its members stand in the order of its slots.

## Main definitions

* `Snapshot.sent` — an exported slice as it arrives when it is sent as JSON.
* `Query.exportVerified` — exports a range, hands the slice over, and verifies what arrives.

## Main results

* `readsBack_event`, `readsBack_entry`, `readsBack_snapshot`, `readsBack_report` — each is read
  back, wherever it stands.
* `json_keeps_shown` — **each is decoded from its JSON text as it is shown, and an export that went
  through JSON is verified with the same report.**
* `json_stray` — an event that is decoded as another one.
-/

namespace AuditChain

open Json

namespace Json

/-! ### Events -/

/-- Every action is read back from its name. -/
theorem readsBack_action (a : Action) : ReadsBack action a.toJson a := by
  have hall : a ∈ Action.all := by cases a <;> decide
  have hmem : Variant.plain a.name a ∈ Action.all.map fun a => Variant.plain a.name a :=
    List.mem_map_of_mem hall
  exact readsBack_bare (by decide) hmem rfl

theorem readsBack_optionalText (o : Option String) :
    ReadsBack (nullable text) (Value.optional .text o) o :=
  readsBack_nullable readsBack_text opens_text o

/-- **Every event is read back** as it is shown. -/
theorem readsBack_event (e : Event) : ReadsBack event e.toJson e.shown := by
  have hfills : Fills eventShape.slots eventShape.empty _
      { dedupKey := some e.dedupKey.text, entityName := some e.entityName, action := some e.action,
        entityId := some e.entityId, oldValues := some e.oldValues, newValues := some e.newValues,
        userId := some e.userId, userEmail := some e.userEmail,
        occurredAt := some e.occurredAt.shown, correlationId := some e.correlationId,
        remoteIp := some e.remoteIp, userAgent := some e.userAgent } :=
    .of (readsBack_text e.dedupKey.text) rfl <| .of (readsBack_text e.entityName) rfl <|
    .of (readsBack_action e.action) rfl <| .of (readsBack_text e.entityId) rfl <|
    .of (readsBack_optionalText e.oldValues) rfl <| .of (readsBack_optionalText e.newValues) rfl <|
    .of (readsBack_optionalText e.userId) rfl <| .of (readsBack_optionalText e.userEmail) rfl <|
    .of (readsBack_instant e.occurredAt) rfl <| .of (readsBack_optionalText e.correlationId) rfl <|
    .of (readsBack_optionalText e.remoteIp) rfl <| .of (readsBack_optionalText e.userAgent) rfl <|
    .nil _
  exact readsBack_record (by decide) hfills rfl

/-- **Every entry is read back** as it is shown. -/
theorem readsBack_entry (e : Entry) : ReadsBack entry e.toJson e.shown := by
  have hfills : Fills entryShape.slots entryShape.empty _ ⟨some e.sequence, some e.event.shown,
      some e.previousHash, some e.hash⟩ :=
    .of (readsBack_word e.sequence) rfl <| .of (readsBack_event e.event) rfl <|
    .of (readsBack_text e.previousHash) rfl <| .of (readsBack_text e.hash) rfl <| .nil _
  exact readsBack_record (by decide) hfills rfl

/-- **Every exported slice is read back** as it is shown. -/
theorem readsBack_snapshot (s : Snapshot) : ReadsBack snapshot s.toJson s.shown := by
  have hentries : ReadsBack (list entry) (.list (s.entries.map Entry.toJson))
      (s.entries.map Entry.shown) :=
    readsBack_list (fun e _ => readsBack_entry e) (fun _ _ => opens_record _)
  have hfills : Fills snapshotShape.slots snapshotShape.empty _ ⟨some (s.entries.map Entry.shown),
      some s.exportedAt.shown, some s.terminalHash⟩ :=
    .of hentries rfl <| .of (readsBack_instant s.exportedAt) rfl <|
    .of (readsBack_text s.terminalHash) rfl <| .nil _
  exact readsBack_record (by decide) hfills rfl

/-! ### Reports -/

/-- A violation of each kind is read back from its sequence. -/
theorem readsBack_violationShape (name : String) (make : UInt64 → Verify.Violation) (n : UInt64) :
    ReadsBack (readShape (violationShape name make)) (.record [("at", .word n)]) (make n) := by
  have hfills : Fills (violationShape name make).slots (violationShape name make).empty
      [("at", .word n)] (some n) := .of (readsBack_word n) rfl <| .nil _
  have hnames : Distinct Slot.name (violationShape name make).slots := List.pairwise_singleton _ _
  exact readsBack_record hnames hfills rfl

/-- Every violation is read back. -/
theorem readsBack_violation (v : Verify.Violation) : ReadsBack violation v.toJson v := by
  cases v with
  | sequenceGap n =>
    exact readsBack_carrying (by decide) List.mem_cons_self (readsBack_violationShape _ _ n)
  | brokenLink n =>
    exact readsBack_carrying (by decide) (List.mem_cons_of_mem _ List.mem_cons_self)
      (readsBack_violationShape _ _ n)
  | hashMismatch n =>
    exact readsBack_carrying (by decide)
      (List.mem_cons_of_mem _ (List.mem_cons_of_mem _ List.mem_cons_self))
      (readsBack_violationShape _ _ n)

/-- Every finding is read back. -/
theorem readsBack_finding (f : Verify.Finding) : ReadsBack finding f.toJson f := by
  cases f with
  | intact => exact readsBack_bare (by decide) List.mem_cons_self rfl
  | violated v =>
    exact readsBack_carrying (by decide) (List.mem_cons_of_mem _ List.mem_cons_self)
      ((readsBack_violation v).map Verify.Finding.violated)

/-- **Every report is read back** whose count of entries is a word of 64 bits. -/
theorem readsBack_report {r : Verify.Report} (h : r.entriesChecked < 2 ^ 64) :
    ReadsBack report r.toJson r := by
  have hlast : ReadsBack (nullable word) (Value.optional .word r.lastVerified) r.lastVerified :=
    readsBack_nullable readsBack_word opens_word r.lastVerified
  have hfills : Fills reportShape.slots reportShape.empty _ ⟨some r.first, some r.last,
      some (UInt64.ofNat r.entriesChecked), some r.lastVerified, some r.finding⟩ :=
    .of (readsBack_word r.first) rfl <| .of (readsBack_word r.last) rfl <|
    .of (readsBack_word (UInt64.ofNat r.entriesChecked)) rfl <| .of hlast rfl <|
    .of (readsBack_finding r.finding) rfl <| .nil _
  have hcount : (UInt64.ofNat r.entriesChecked).toNat = r.entriesChecked :=
    UInt64.toNat_ofNat_of_lt' h
  refine readsBack_record (by decide) hfills ?_
  show Except.ok (⟨r.first, r.last, (UInt64.ofNat r.entriesChecked).toNat, r.lastVerified,
    r.finding⟩ : Verify.Report) = .ok r
  rw [hcount]

end Json

/-! ### Whole texts -/

/-- An exported slice as it arrives when it is sent as JSON in a layout. -/
def Snapshot.sent (layout : Value → String) (s : Snapshot) : Except Fault Snapshot :=
  decode snapshot (layout s.toJson)

/-- Exports a range, hands the slice over, and verifies what arrives. -/
def Query.exportVerified (handOver : Snapshot → Except Fault Snapshot) (now : Timestamp)
    (first last : UInt64) : LedgerProgram (Except AuditError (Except Fault Verify.Report)) :=
  (exportRange now first last).bind fun exported =>
    .done (exported.map fun slice => (handOver slice).map Verify.verifySnapshot)

/-- A slice that was sent arrives as it is shown. -/
theorem Snapshot.sent_eq (s : Snapshot) :
    s.sent Value.compact = .ok s.shown ∧ s.sent Value.pretty = .ok s.shown :=
  (readsBack_snapshot s).survives

/-- What arrives as it is shown is verified with the same report. -/
theorem Query.exportVerified_eq {handOver : Snapshot → Except Fault Snapshot}
    (h : ∀ s, handOver s = .ok s.shown) (now : Timestamp) (first last : UInt64) :
    exportVerified handOver now first last = exportVerified .ok now first last := by
  unfold exportVerified
  congr 1
  funext exported
  cases exported with
  | error err => rfl
  | ok s => simp only [Except.map, h, Verify.verifySnapshot_shown]

/-- **The JSON form keeps what is shown.**  Every event, entry and slice is decoded from its text as it
is shown, so as it was exactly if no instant of it is in a leap second off the minute; and every report
as it was.  Whatever the store, a slice that was sent as JSON is verified with the report of the slice
that was exported.  A report counts its entries in a word of 64 bits. -/
theorem json_keeps_shown :
    (∀ e : Event, Survives event e.toJson e.shown ∧
      (Survives event e.toJson e ↔ ¬e.occurredAt.OffMinute)) ∧
    (∀ e : Entry, Survives entry e.toJson e.shown ∧
      (Survives entry e.toJson e ↔ ¬e.event.occurredAt.OffMinute)) ∧
    (∀ s : Snapshot, Survives snapshot s.toJson s.shown ∧ (Survives snapshot s.toJson s ↔
      (∀ e ∈ s.entries, ¬e.event.occurredAt.OffMinute) ∧ ¬s.exportedAt.OffMinute)) ∧
    (∀ r : Verify.Report, r.entriesChecked < 2 ^ 64 → Survives report r.toJson r) ∧
    ∀ {σ : Type} [Store σ] (store : σ) (cancelled : Bool) (now : Timestamp) (first last : UInt64),
      let verified (handOver : Snapshot → Except Fault Snapshot) :=
        (Query.exportVerified handOver now first last).run (Store.respond cancelled) store
      verified (Snapshot.sent Value.compact) = verified .ok ∧
        verified (Snapshot.sent Value.pretty) = verified .ok := by
  refine ⟨fun e => ?_, fun e => ?_, fun s => ?_, fun r h => (readsBack_report h).survives, ?_⟩
  · have hshown := (readsBack_event e).survives
    exact ⟨hshown, hshown.iff.trans Event.shown_eq_self_iff⟩
  · have hshown := (readsBack_entry e).survives
    exact ⟨hshown, hshown.iff.trans Entry.shown_eq_self_iff⟩
  · have hshown := (readsBack_snapshot s).survives
    exact ⟨hshown, hshown.iff.trans Snapshot.shown_eq_self_iff⟩
  · intro σ _ store cancelled now first last verified
    simp only [verified, Query.exportVerified_eq (fun s => s.sent_eq.1),
      Query.exportVerified_eq (fun s => s.sent_eq.2)]
    exact ⟨trivial, trivial⟩

/-- An event with an escape, an empty text and a leap second before the year zero. -/
def awkward : Event where
  dedupKey := ⟨"\"\x01\n\\é"⟩
  entityName := ""
  action := .modified
  entityId := "𝔸"
  oldValues := some ""
  occurredAt := ⟨⟨-1, 12, 31, by decide⟩, ⟨86399, 1500000000, by decide⟩⟩

theorem json_keeps_shown_awkward :
    let r : Verify.Report := ⟨0, maxSequence, 3, some 2, .violated (.hashMismatch 3)⟩
    r.toJson.compact = "\x7b\"from\":0,\"to\":18446744073709551615,\"entries_checked\":3," ++
      "\"last_verified\":2,\"outcome\":" ++
      "\x7b\"Violated\":\x7b\"HashMismatch\":\x7b\"at\":3\x7d\x7d\x7d\x7d" ∧
    r.entriesChecked < 2 ^ 64 ∧ Survives report r.toJson r ∧
      Survives event awkward.toJson awkward := by
  have hcount : 3 < 2 ^ 64 := by decide
  have hshown : ¬awkward.occurredAt.OffMinute := by decide
  obtain ⟨hevents, -, -, hreports, -⟩ := json_keeps_shown
  exact ⟨by decide +kernel, hcount, hreports _ hcount, (hevents awkward).2.mpr hshown⟩

/-- An event in a leap second off the minute is decoded from its JSON text as an event in the second
that comes next. -/
theorem json_stray :
    let e := Event.bare "first" "1" .stray
    Survives event e.toJson e.shown ∧ e.shown ≠ e ∧ ¬Survives event e.toJson e := by
  intro e
  have hsurvives := (readsBack_event e).survives
  have hoff : Timestamp.stray.OffMinute := by decide
  have hne : e.shown ≠ e := fun heq => Event.shown_eq_self_iff.mp heq hoff
  exact ⟨hsurvives, hne, fun h => hne (hsurvives.iff.mp h)⟩

end AuditChain
