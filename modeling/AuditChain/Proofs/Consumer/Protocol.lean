import AuditChain.Consumer
import AuditChain.Proofs.Append.Protocol
import AuditChain.Proofs.Chain

/-!
# What a consumer does

Read off the tree of a consumer alone, whatever it is answered: since its last delivery it has
asked the store only what a submission of that event asks, and it settles that delivery, once the
submission has ended, by the way it has ended.  So it acknowledges nothing but what a lookup or an
insert has shown to be committed.

## Main definitions

* `current`, `recent` — the last delivery of a consumer, and what the store has answered since.
* `MayWork` — what a consumer may ask.

## Main results

* `handle_obeys` — one delivery keeps to this.
* `work_obeys` — **a consumer keeps to this**, however many deliveries it takes.
-/

namespace AuditChain.Consumer

/-- The delivery that a consumer has received last. -/
def current : Transcript shop → Option Broker.Delivery
  | [] => none
  | ⟨.receive, reply⟩ :: _ => reply
  | ⟨.store _, _⟩ :: l => current l
  | ⟨.settle _ _, _⟩ :: l => current l

/-- What the store has answered since the last delivery. -/
def recent : Transcript shop → Transcript ledger
  | [] => []
  | ⟨.receive, _⟩ :: _ => []
  | ⟨.store r, reply⟩ :: l => ⟨r, reply⟩ :: recent l
  | ⟨.settle _ _, _⟩ :: l => recent l

/-- An exchange with the store. -/
def onStore : Exchange shop → Option (Exchange ledger)
  | ⟨.store r, reply⟩ => some ⟨r, reply⟩
  | ⟨.receive, _⟩ => none
  | ⟨.settle _ _, _⟩ => none

/-- What the store has answered last. -/
theorem exists_onStore (l : Transcript shop) :
    ∃ older, l.filterMap onStore = recent l ++ older := by
  induction l with
  | nil => exact ⟨[], rfl⟩
  | cons x l ih =>
    obtain ⟨older, holder⟩ := ih
    match x with
    | ⟨.receive, _⟩ => exact ⟨l.filterMap onStore, rfl⟩
    | ⟨.store r, reply⟩ => exact ⟨older, congrArg (List.cons (⟨r, reply⟩ : Exchange ledger)) holder⟩
    | ⟨.settle _ _, _⟩ => exact ⟨older, holder⟩

/-- The last delivery was received. -/
theorem mem_of_current {l : Transcript shop} {d : Broker.Delivery} (h : current l = some d) :
    ⟨.receive, some d⟩ ∈ l := by
  induction l with
  | nil => cases h
  | cons x l ih =>
    match x with
    | ⟨.receive, reply⟩ =>
      obtain rfl : reply = some d := h
      exact List.mem_cons_self
    | ⟨.store _, _⟩ => exact List.mem_cons_of_mem _ (ih h)
    | ⟨.settle _ _, _⟩ => exact List.mem_cons_of_mem _ (ih h)

/-- What a consumer may ask: it inserts nothing but what a submission has sealed since the last
delivery, and it settles that delivery by the way a submission of its event has ended. -/
def MayWork (l : Transcript shop) : Request → Prop
  | .store (.insert e) => ∃ event, Sealing event (recent l) e
  | .store _ => True
  | .receive => True
  | .settle tag s => ∃ d result report, current l = some d ∧ d.tag = tag ∧
      EndsAppend d.event (recent l) result ∧ s = (settlementOf report result).1

/-- To the store, a consumer is somebody who appends events. -/
theorem mayAppendAny_of_mayWork {l : Transcript shop} {r : AuditChain.Request}
    (h : MayWork l (.store r)) : MayAppendAny (fun _ => True) (l.filterMap onStore) r := by
  cases r with
  | insert e =>
    obtain ⟨event, hsealing⟩ := h
    obtain ⟨older, holder⟩ := exists_onStore l
    rw [holder, MayAppendAny, hsealing.event_eq]
    exact ⟨trivial, hsealing.append older⟩
  | _ => trivial

/-- Only a submission that has ended well is acknowledged. -/
theorem ok_of_ack {report : Report} {result : Except AuditError Outcome}
    (h : .ack = (settlementOf report result).1) : ∃ outcome, result = .ok outcome := by
  cases result with
  | ok outcome => exact ⟨outcome, rfl⟩
  | error e => cases e <;> cases h

variable {p : RetryPolicy} {d : Broker.Delivery} {report : Report} {l : Transcript shop}

/-- A consumer that has received a delivery submits its event, and settles it accordingly. -/
theorem handle_obeys (hcurrent : current l = some d) (hrecent : recent l = []) :
    (handle p d report).Obeys MayWork (fun _ _ => True) l := by
  have hsubmit : (submit p d.event).Obeys (MayAppend d.event) (EndsAppend d.event) (recent l) := by
    rw [hrecent]
    exact submit_obeys p d.event
  have hembed : ((submit p d.event).embed overStore).Obeys MayWork
      (fun l result => current l = some d ∧ EndsAppend d.event (recent l) result) l := by
    refine Program.Obeys.embed overStore recent (fun l => current l = some d) (fun _ _ _ => rfl)
      (fun _ _ _ hl => hl) ?_ ?_ hcurrent hsubmit
    · intro l r _ hmay
      cases r with
      | insert e => exact ⟨d.event, hmay⟩
      | _ => trivial
    · intro l result hl hend
      exact ⟨hl, hend⟩
  refine hembed.bind ?_
  rintro l result ⟨hl, hend⟩
  exact ⟨⟨d, result, report, hl, rfl, hend, rfl⟩, fun _ => trivial⟩

/-- **A consumer keeps to what it may ask**, whatever it has done before. -/
theorem work_obeys (p : RetryPolicy) (rounds : Nat) (report : Report) (l : Transcript shop) :
    (work p rounds report).Obeys MayWork (fun _ _ => True) l := by
  induction rounds generalizing report l with
  | zero => trivial
  | succ rounds ih =>
    refine ⟨trivial, ?_⟩
    rintro (_ | _)
    · refine ⟨trivial, ?_⟩
      rintro (_ | d)
      · trivial
      · exact (handle_obeys rfl rfl).bind fun l report _ => ih report l
    · trivial

end AuditChain.Consumer
