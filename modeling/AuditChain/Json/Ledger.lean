import AuditChain.Entry
import AuditChain.Json.Decoder
import AuditChain.Query
import AuditChain.Verify.Report

/-!
# The JSON form of the ledger

Events, entries, exported slices, reports and pages as JSON values, and the decoders of these.  A
missing member is nothing where nothing is allowed.

## Main definitions

* `Event.toJson`, `Entry.toJson`, `Snapshot.toJson`, `Verify.Report.toJson`, `Page.toJson`.
* `Json.action`, `Json.event`, `Json.entry`, `Json.snapshot`, `Json.violation`, `Json.report`,
  `Json.page` — the decoders.
-/

namespace AuditChain

open Json

/-! ### Events -/

/-- An action as JSON: its name. -/
def Action.toJson (a : Action) : Value :=
  .text a.name

/-- An event as JSON. -/
def Event.toJson (e : Event) : Value :=
  let text? := Value.optional Value.text
  .record [
    ("dedup_key", .text e.dedupKey.text),
    ("entity_name", .text e.entityName),
    ("action", e.action.toJson),
    ("entity_id", .text e.entityId),
    ("old_values", text? e.oldValues),
    ("new_values", text? e.newValues),
    ("user_id", text? e.userId),
    ("user_email", text? e.userEmail),
    ("occurred_at", .text e.occurredAt.compact),
    ("correlation_id", text? e.correlationId),
    ("remote_ip", text? e.remoteIp),
    ("user_agent", text? e.userAgent)]

/-- An entry as JSON. -/
def Entry.toJson (e : Entry) : Value :=
  .record [
    ("sequence", .word e.sequence),
    ("event", e.event.toJson),
    ("previous_hash", .text e.previousHash),
    ("hash", .text e.hash)]

/-- An exported slice as JSON. -/
def Snapshot.toJson (s : Snapshot) : Value :=
  .record [
    ("entries", .list (s.entries.map Entry.toJson)),
    ("exported_at", .text s.exportedAt.compact),
    ("terminal_hash", .text s.terminalHash)]

/-! ### Reports and pages -/

/-- A violation as JSON. -/
def Verify.Violation.toJson (v : Verify.Violation) : Value :=
  let name := match v with
    | .sequenceGap _ => "SequenceGap"
    | .brokenLink _ => "BrokenLink"
    | .hashMismatch _ => "HashMismatch"
  .record [(name, .record [("at", .word v.sequence)])]

/-- A finding as JSON. -/
def Verify.Finding.toJson : Verify.Finding → Value
  | .intact => .text "Intact"
  | .violated v => .record [("Violated", v.toJson)]

/-- A report as JSON. -/
def Verify.Report.toJson (r : Verify.Report) : Value :=
  .record [
    ("from", .word r.first),
    ("to", .word r.last),
    ("entries_checked", .nat r.entriesChecked),
    ("last_verified", Value.optional Value.word r.lastVerified),
    ("outcome", r.finding.toJson)]

/-- A page as JSON. -/
def Page.toJson {α : Type} (item : α → Value) (p : Page α) : Value :=
  .record [
    ("items", .list (p.items.map item)),
    ("total_count", .nat p.totalCount),
    ("page_number", .nat p.pageNumber),
    ("page_size", .nat p.pageSize)]

namespace Json

/-! ### Decoding events -/

/-- Reads an action. -/
def action : Decoder Action :=
  readVariant (Action.all.map fun a => .plain a.name a)

/-- An event of which any member may be missing. -/
structure EventDraft where
  /-- The key. -/
  dedupKey : Option String := none
  /-- The kind of entity. -/
  entityName : Option String := none
  /-- What happened to it. -/
  action : Option Action := none
  /-- Which entity. -/
  entityId : Option String := none
  /-- The values before. -/
  oldValues : Option (Option String) := none
  /-- The values after. -/
  newValues : Option (Option String) := none
  /-- Who did it. -/
  userId : Option (Option String) := none
  /-- How to reach them. -/
  userEmail : Option (Option String) := none
  /-- When it happened. -/
  occurredAt : Option Timestamp := none
  /-- What ties it to a request. -/
  correlationId : Option (Option String) := none
  /-- Where the request came from. -/
  remoteIp : Option (Option String) := none
  /-- What sent the request. -/
  userAgent : Option (Option String) := none

/-- The event of a draft. -/
def EventDraft.finish (d : EventDraft) : Except Misfit Event := do
  let dedupKey ← require "dedup_key" d.dedupKey
  let entityName ← require "entity_name" d.entityName
  let action ← require "action" d.action
  let entityId ← require "entity_id" d.entityId
  let occurredAt ← require "occurred_at" d.occurredAt
  return {
    dedupKey := ⟨dedupKey⟩
    entityName
    action
    entityId
    oldValues := d.oldValues.join
    newValues := d.newValues.join
    userId := d.userId.join
    userEmail := d.userEmail.join
    occurredAt
    correlationId := d.correlationId.join
    remoteIp := d.remoteIp.join
    userAgent := d.userAgent.join }

/-- How an event is read. -/
def eventShape : Shape EventDraft Event where
  expected := "struct AuditEvent"
  empty := {}
  slots := [
    .of "dedup_key" EventDraft.dedupKey (fun d a => { d with dedupKey := a }) text,
    .of "entity_name" EventDraft.entityName (fun d a => { d with entityName := a }) text,
    .of "action" EventDraft.action (fun d a => { d with action := a }) action,
    .of "entity_id" EventDraft.entityId (fun d a => { d with entityId := a }) text,
    .of "old_values" EventDraft.oldValues (fun d a => { d with oldValues := a }) (nullable text),
    .of "new_values" EventDraft.newValues (fun d a => { d with newValues := a }) (nullable text),
    .of "user_id" EventDraft.userId (fun d a => { d with userId := a }) (nullable text),
    .of "user_email" EventDraft.userEmail (fun d a => { d with userEmail := a }) (nullable text),
    .of "occurred_at" EventDraft.occurredAt (fun d a => { d with occurredAt := a }) instant,
    .of "correlation_id" EventDraft.correlationId (fun d a => { d with correlationId := a })
      (nullable text),
    .of "remote_ip" EventDraft.remoteIp (fun d a => { d with remoteIp := a }) (nullable text),
    .of "user_agent" EventDraft.userAgent (fun d a => { d with userAgent := a }) (nullable text)]
  finish := EventDraft.finish

/-- Reads an event. -/
def event : Decoder Event :=
  readShape eventShape

/-! ### Decoding entries and slices -/

/-- An entry of which any member may be missing. -/
structure EntryDraft where
  /-- The sequence. -/
  sequence : Option UInt64 := none
  /-- The event. -/
  event : Option Event := none
  /-- The hash of the entry before. -/
  previousHash : Option String := none
  /-- The hash of the entry. -/
  hash : Option String := none

/-- The entry of a draft. -/
def EntryDraft.finish (d : EntryDraft) : Except Misfit Entry := do
  let sequence ← require "sequence" d.sequence
  let event ← require "event" d.event
  let previousHash ← require "previous_hash" d.previousHash
  let hash ← require "hash" d.hash
  return ⟨sequence, event, previousHash, hash⟩

/-- How an entry is read. -/
def entryShape : Shape EntryDraft Entry where
  expected := "struct AuditEntry"
  empty := {}
  slots := [
    .of "sequence" EntryDraft.sequence (fun d a => { d with sequence := a }) word,
    .of "event" EntryDraft.event (fun d a => { d with event := a }) event,
    .of "previous_hash" EntryDraft.previousHash (fun d a => { d with previousHash := a }) text,
    .of "hash" EntryDraft.hash (fun d a => { d with hash := a }) text]
  finish := EntryDraft.finish

/-- Reads an entry. -/
def entry : Decoder Entry :=
  readShape entryShape

/-- A slice of which any member may be missing. -/
structure SnapshotDraft where
  /-- The entries. -/
  entries : Option (List Entry) := none
  /-- When it was taken. -/
  exportedAt : Option Timestamp := none
  /-- The hash of the last entry. -/
  terminalHash : Option String := none

/-- The slice of a draft. -/
def SnapshotDraft.finish (d : SnapshotDraft) : Except Misfit Snapshot := do
  let entries ← require "entries" d.entries
  let exportedAt ← require "exported_at" d.exportedAt
  let terminalHash ← require "terminal_hash" d.terminalHash
  return ⟨entries, exportedAt, terminalHash⟩

/-- How a slice is read. -/
def snapshotShape : Shape SnapshotDraft Snapshot where
  expected := "struct ChainSnapshot"
  empty := {}
  slots := [
    .of "entries" SnapshotDraft.entries (fun d a => { d with entries := a }) (list entry),
    .of "exported_at" SnapshotDraft.exportedAt (fun d a => { d with exportedAt := a }) instant,
    .of "terminal_hash" SnapshotDraft.terminalHash (fun d a => { d with terminalHash := a }) text]
  finish := SnapshotDraft.finish

/-- Reads an exported slice. -/
def snapshot : Decoder Snapshot :=
  readShape snapshotShape

/-! ### Decoding reports -/

open Verify in
/-- How a violation of a kind is read: a record with its sequence. -/
def violationShape (name : String) (make : UInt64 → Violation) :
    Shape (Option UInt64) Violation where
  expected := s!"struct variant ChainViolation::{name}"
  empty := none
  slots := [.of "at" id (fun _ a => a) word]
  finish := fun d => (require "at" d).map make

/-- Reads a violation. -/
def violation : Decoder Verify.Violation :=
  readVariant [
    .record "SequenceGap" (violationShape "SequenceGap" .sequenceGap),
    .record "BrokenLink" (violationShape "BrokenLink" .brokenLink),
    .record "HashMismatch" (violationShape "HashMismatch" .hashMismatch)]

/-- Reads a finding. -/
def finding : Decoder Verify.Finding :=
  readVariant [
    .plain "Intact" .intact,
    .carrying "Violated" fun s => (violation s).map fun (v, s) => (.violated v, s)]

/-- A report of which any member may be missing. -/
structure ReportDraft where
  /-- The start of the range. -/
  first : Option UInt64 := none
  /-- The end of the range. -/
  last : Option UInt64 := none
  /-- How many entries passed. -/
  entriesChecked : Option UInt64 := none
  /-- The last entry that passed. -/
  lastVerified : Option (Option UInt64) := none
  /-- What was found. -/
  finding : Option Verify.Finding := none

/-- The report of a draft. -/
def ReportDraft.finish (d : ReportDraft) : Except Misfit Verify.Report := do
  let first ← require "from" d.first
  let last ← require "to" d.last
  let entriesChecked ← require "entries_checked" d.entriesChecked
  let finding ← require "outcome" d.finding
  return ⟨first, last, entriesChecked.toNat, d.lastVerified.join, finding⟩

/-- How a report is read. -/
def reportShape : Shape ReportDraft Verify.Report where
  expected := "struct VerificationReport"
  empty := {}
  slots := [
    .of "from" ReportDraft.first (fun d a => { d with first := a }) word,
    .of "to" ReportDraft.last (fun d a => { d with last := a }) word,
    .of "entries_checked" ReportDraft.entriesChecked (fun d a => { d with entriesChecked := a })
      word,
    .of "last_verified" ReportDraft.lastVerified (fun d a => { d with lastVerified := a })
      (nullable word),
    .of "outcome" ReportDraft.finding (fun d a => { d with finding := a }) finding]
  finish := ReportDraft.finish

/-- Reads a report. -/
def report : Decoder Verify.Report :=
  readShape reportShape

/-! ### Decoding pages -/

/-- A page of which any member may be missing. -/
structure PageDraft (α : Type) where
  /-- The results. -/
  items : Option (List α) := none
  /-- The number of results on all pages. -/
  totalCount : Option UInt64 := none
  /-- The number of the page. -/
  pageNumber : Option UInt64 := none
  /-- How many results fit on a page. -/
  pageSize : Option UInt64 := none

/-- The page of a draft. -/
def PageDraft.finish {α : Type} (d : PageDraft α) : Except Misfit (Page α) := do
  let items ← require "items" d.items
  let totalCount ← require "total_count" d.totalCount
  let pageNumber ← require "page_number" d.pageNumber
  let pageSize ← require "page_size" d.pageSize
  return ⟨items, totalCount.toNat, pageNumber.toNat, pageSize.toNat⟩

/-- How a page is read. -/
def pageShape {α : Type} (item : Decoder α) : Shape (PageDraft α) (Page α) where
  expected := "struct Page"
  empty := {}
  slots := [
    .of "items" PageDraft.items (fun d a => { d with items := a }) (list item),
    .of "total_count" PageDraft.totalCount (fun d a => { d with totalCount := a }) word,
    .of "page_number" PageDraft.pageNumber (fun d a => { d with pageNumber := a }) word,
    .of "page_size" PageDraft.pageSize (fun d a => { d with pageSize := a }) word]
  finish := PageDraft.finish

/-- Reads a page. -/
def page {α : Type} (item : Decoder α) : Decoder (Page α) :=
  readShape (pageShape item)

end Json

end AuditChain
