import AuditChain.Proofs.Append.Effect
import AuditChain.Proofs.Append.Overtaking
import AuditChain.Proofs.Consumer.Protocol
import AuditChain.Proofs.Consumer.Site
import Mathlib.Algebra.BigOperators.Fin

/-!
# The books of a crew

Consumers work on one broker and one store with nobody else around.  Each keeps a tally of its own,
the broker has its counters, and the store its entries.  When all of them have come to their ends,
whenever the caller has cancelled and whatever the store has answered, the three agree: each
delivery was settled once, by the consumer that had received it, and was tallied in the way in which
it was settled.

## Main definitions

* `holding` — the delivery that a consumer has received and not settled yet.
* `InHand`, `Tallies` — what a consumer asks of the broker, and what its report tells.
* `refused` — the deliveries that were refused.
* `InHands`, `Counted`, `Squares` — who holds what, what is counted, and what every move preserves.
* `Reconciled` — the report, the broker and the store agree.

## Main results

* `work_tallies` — a consumer settles what it holds, and tallies it.
* `Squares.move`, `Run.squares` — one move, and a whole run.
* `crew_reconciles` — **the report of a crew agrees with the broker and the store.**
-/

namespace AuditChain.Consumer

/-! ### What a consumer has done -/

/-- The delivery that a consumer has received and not settled yet. -/
def holding : Transcript shop → Option Broker.Delivery
  | [] => none
  | ⟨.receive, reply⟩ :: _ => reply
  | ⟨.store _, _⟩ :: l => holding l
  | ⟨.settle _ _, _⟩ :: _ => none

theorem current_of_holding {l : Transcript shop} {d : Broker.Delivery} (h : holding l = some d) :
    current l = some d := by
  induction l with
  | nil => cases h
  | cons x l ih =>
    match x with
    | ⟨.receive, _⟩ => exact h
    | ⟨.store _, _⟩ => exact ih h
    | ⟨.settle _ _, _⟩ => cases h

/-- The settlement is an acknowledgement. -/
def Settlement.isAck : Settlement → Bool
  | .ack => true
  | _ => false

/-- The settlement is a refusal. -/
def Settlement.isNack : Settlement → Bool
  | .nack _ => true
  | _ => false

/-- The settlement puts a message away. -/
def Settlement.isDeadLetter : Settlement → Bool
  | .deadLetter _ => true
  | _ => false

/-- A delivery was received. -/
def isDelivery : Exchange shop → Bool
  | ⟨.receive, some _⟩ => true
  | _ => false

/-- An insert was done. -/
def isAppend : Exchange shop → Bool
  | ⟨.store r, reply⟩ => Exchange.isCommit ⟨r, reply⟩
  | _ => false

/-- A delivery was settled in some way. -/
def settles (way : Settlement → Bool) : Exchange shop → Bool
  | ⟨.settle _ x, _⟩ => way x
  | _ => false

/-- What a consumer may ask of a broker: a delivery while it holds none, and to settle the one that
it holds. -/
def InHand (l : Transcript shop) : Request → Prop
  | .store _ => True
  | .receive => holding l = none
  | .settle tag _ => ∃ d, holding l = some d ∧ d.tag = tag

/-- The report tells what a consumer has done that holds nothing. -/
structure Tallies (l : Transcript shop) (r : Report) : Prop where
  free : holding l = none
  appended : r.appended = l.countP isAppend
  acked : r.appended + r.duplicates = l.countP (settles Settlement.isAck)
  nacked : r.nacked = l.countP (settles Settlement.isNack)
  deadLettered : r.deadLettered = l.countP (settles Settlement.isDeadLetter)
  delivered : r.appended + r.duplicates + r.nacked + r.deadLettered = l.countP isDelivery

/-- The report tells what a consumer has done but for the delivery that it holds; the store may have
done something for that since. -/
structure Owes (d : Broker.Delivery) (l : Transcript shop) (r : Report) : Prop where
  held : holding l = some d
  appended : r.appended + (recent l).countP Exchange.isCommit = l.countP isAppend
  acked : r.appended + r.duplicates = l.countP (settles Settlement.isAck)
  nacked : r.nacked = l.countP (settles Settlement.isNack)
  deadLettered : r.deadLettered = l.countP (settles Settlement.isDeadLetter)
  delivered : r.appended + r.duplicates + r.nacked + r.deadLettered + 1 = l.countP isDelivery

theorem Tallies.start : Tallies [] {} :=
  ⟨rfl, rfl, rfl, rfl, rfl, rfl⟩

section Tally

variable {d : Broker.Delivery} {l : Transcript shop} {r : Report}

/-- What the store is asked is not settled yet. -/
theorem Owes.store (h : Owes d l r) (q : AuditChain.Request) (reply : q.Reply) :
    Owes d (⟨.store q, reply⟩ :: l) r where
  held := h.held
  appended := by
    show r.appended + (⟨q, reply⟩ :: recent l : Transcript ledger).countP Exchange.isCommit = _
    rw [List.countP_cons, List.countP_cons, ← h.appended, Nat.add_assoc]
    rfl
  acked := h.acked
  nacked := h.nacked
  deadLettered := h.deadLettered
  delivered := h.delivered

/-- A delivery was received. -/
theorem Tallies.receive (h : Tallies l r) (d : Broker.Delivery) :
    Owes d (⟨.receive, some d⟩ :: l) r where
  held := rfl
  appended := h.appended
  acked := h.acked
  nacked := h.nacked
  deadLettered := h.deadLettered
  delivered := by
    rw [List.countP_cons_of_pos rfl, h.delivered]

/-- How many inserts a submission has done that ends in this way. -/
def insertsOf : Except AuditError Outcome → Nat
  | .ok (.appended _) => 1
  | _ => 0

theorem countP_of_ends {event : Event} {l : Transcript ledger}
    {result : Except AuditError Outcome} (h : EndsAppend event l result) :
    l.countP Exchange.isCommit = insertsOf result := by
  match result with
  | .ok (.appended e) =>
    obtain ⟨before, rfl, -, hnone⟩ := h
    rw [List.countP_cons_of_neg (by simp [Exchange.isCommit]), List.countP_cons_of_pos rfl,
      noneDone_iff.mp hnone]
    rfl
  | .ok (.duplicate e) => exact noneDone_iff.mp h.2
  | .error e => exact noneDone_iff.mp h

/-- An error makes a delivery be refused or put away. -/
theorem settlementOf_error (r : Report) (e : AuditError) :
    (∃ reason, settlementOf r (.error e) = (.nack reason, { r with nacked := r.nacked + 1 })) ∨
    ∃ reason, settlementOf r (.error e) =
      (.deadLetter reason, { r with deadLettered := r.deadLettered + 1 }) := by
  cases e with
  | transientStorage _ => exact .inl ⟨_, rfl⟩
  | cancelled => exact .inl ⟨_, rfl⟩
  | _ => exact .inr ⟨_, rfl⟩

/-- A settlement is of one of three sorts. -/
theorem Settlement.sorts (x : Settlement) :
    (if x.isAck then 1 else 0) + (if x.isNack then 1 else 0) + (if x.isDeadLetter then 1 else 0) =
      1 := by
  cases x <;> rfl

/-- What is held is settled, and tallied once. -/
theorem Owes.tally (h : Owes d l r) {x : Settlement} {r' : Report}
    (happended : r'.appended = l.countP isAppend)
    (hacked : r'.appended + r'.duplicates = r.appended + r.duplicates + if x.isAck then 1 else 0)
    (hnacked : r'.nacked = r.nacked + if x.isNack then 1 else 0)
    (hdead : r'.deadLettered = r.deadLettered + if x.isDeadLetter then 1 else 0) :
    Tallies (⟨.settle d.tag x, ()⟩ :: l) r' := by
  have hsettles : ∀ way, (⟨.settle d.tag x, ()⟩ :: l : Transcript shop).countP (settles way) =
      l.countP (settles way) + if way x then 1 else 0 := fun way => List.countP_cons
  refine ⟨rfl, happended, ?_, ?_, ?_, ?_⟩
  · rw [hsettles, hacked, h.acked]
  · rw [hsettles, hnacked, h.nacked]
  · rw [hsettles, hdead, h.deadLettered]
  · have hsorts := x.sorts
    have hdelivered : _ = (⟨.settle d.tag x, ()⟩ :: l : Transcript shop).countP isDelivery :=
      h.delivered
    omega

/-- The delivery is settled by the way its submission has ended, and tallied in that way. -/
theorem Owes.settle (h : Owes d l r) {result : Except AuditError Outcome}
    (hends : EndsAppend d.event (recent l) result) :
    Tallies (⟨.settle d.tag (settlementOf r result).1, ()⟩ :: l) (settlementOf r result).2 := by
  have happended := h.appended
  rw [countP_of_ends hends] at happended
  match result with
  | .ok (.appended e) => exact h.tally happended (Nat.add_right_comm ..) rfl rfl
  | .ok (.duplicate e) => exact h.tally happended rfl rfl rfl
  | .error e =>
    rcases settlementOf_error r e with ⟨reason, heq⟩ | ⟨reason, heq⟩
    · rw [heq]
      exact h.tally happended rfl rfl rfl
    · rw [heq]
      exact h.tally happended rfl rfl rfl

/-- A consumer submits the event that it has received, and settles and tallies its delivery. -/
theorem handle_tallies (p : RetryPolicy) (h : Owes d l r) (hrecent : recent l = []) :
    (handle p d r).Obeys InHand Tallies l := by
  have hsubmit : (submit p d.event).Obeys (MayAppend d.event) (EndsAppend d.event) (recent l) := by
    rw [hrecent]
    exact submit_obeys p d.event
  have hembed : ((submit p d.event).embed overStore).Obeys InHand
      (fun l result => Owes d l r ∧ EndsAppend d.event (recent l) result) l :=
    Program.Obeys.embed overStore recent (fun l => Owes d l r) (fun _ _ _ => rfl)
      (fun _ q reply h => h.store q reply) (fun _ _ _ _ => trivial) (fun _ _ h hends => ⟨h, hends⟩)
      h hsubmit
  refine hembed.bind ?_
  rintro l result ⟨h, hends⟩
  exact ⟨⟨d, h.held, rfl⟩, fun _ => h.settle hends⟩

/-- **A consumer settles what it holds, and tallies it**, delivery by delivery. -/
theorem work_tallies (p : RetryPolicy) (rounds : Nat) (h : Tallies l r) :
    (work p rounds r).Obeys InHand Tallies l := by
  induction rounds generalizing l r with
  | zero => exact h
  | succ rounds ih =>
    refine ⟨trivial, ?_⟩
    rintro (_ | _)
    · refine ⟨h.free, ?_⟩
      rintro (_ | d)
      · exact ⟨rfl, h.appended, h.acked, h.nacked, h.deadLettered, h.delivered⟩
      · have h : Tallies (⟨.store .cancelled, false⟩ :: l) r :=
          ⟨h.free, h.appended, h.acked, h.nacked, h.deadLettered, h.delivered⟩
        exact (handle_tallies p (h.receive d) rfl).bind fun l r h => ih h
    · exact ⟨h.free, h.appended, h.acked, h.nacked, h.deadLettered, h.delivered⟩

end Tally

/-! ### What a crew has done -/

variable {σ ι : Type} [DecidableEq ι]

/-- The number of moves with an exchange of some sort. -/
def tally (sort : Exchange shop → Bool) (h : List (Move shop ι (Site σ))) : ℕ :=
  h.countP fun m => sort m.exchange

/-- The delivery that a consumer with some exchanges behind it refuses by one more, if it does. -/
def refusedBy (l : Transcript shop) (x : Exchange shop) : List Broker.Delivery :=
  if settles Settlement.isNack x then (current l).toList else []

/-- The deliveries that were refused, the last first. -/
def refused : List (Move shop ι (Site σ)) → List Broker.Delivery
  | [] => []
  | m :: h => refusedBy (transcript m.who h) m.exchange ++ refused h

variable {m : Move shop ι (Site σ)} {h : List (Move shop ι (Site σ))} {s₀ s : Site σ} {b : Broker}
  {d : Broker.Delivery} {x : Settlement}

/-! ### Whose deliveries are in flight -/

/-- A move changes only what its caller holds. -/
theorem holding_of_ne {j : ι} (hj : m.who ≠ j) :
    holding (transcript j (m :: h)) = holding (transcript j h) := by
  rw [transcript_cons_of_ne hj]

theorem holding_self : holding (transcript m.who (m :: h)) =
    holding (m.exchange :: transcript m.who h) := by
  rw [transcript_cons_of_eq rfl]

/-- What is in flight is what the consumers hold, and no two of them hold one delivery. -/
structure InHands (h : List (Move shop ι (Site σ))) (b : Broker) : Prop where
  tagged : b.Tagged
  inFlight : ∀ p, p ∈ b.inFlight ↔
    ∃ j d, holding (transcript j h) = some d ∧ p = (d.tag, ⟨d.event, d.attempt⟩)
  apart : ∀ j k d e, holding (transcript j h) = some d → holding (transcript k h) = some e →
    d.tag = e.tag → j = k

namespace InHands

theorem start (hflight : b.inFlight = []) :
    InHands ([] : List (Move shop ι (Site σ))) b := by
  refine ⟨⟨?_, ?_⟩, ?_, ?_⟩
  · rw [hflight]
    exact .nil
  · rw [hflight]
    exact fun _ hp => absurd hp List.not_mem_nil
  · rw [hflight]
    intro p
    refine iff_of_false List.not_mem_nil ?_
    rintro ⟨j, d, hd, -⟩
    cases hd
  · intro j k d e hd
    cases hd

/-- Its caller holds what it has held. -/
theorem keep (inv : InHands h b)
    (hkeep : holding (m.exchange :: transcript m.who h) = holding (transcript m.who h)) :
    InHands (m :: h) b := by
  have hholding : ∀ j, holding (transcript j (m :: h)) = holding (transcript j h) := by
    intro j
    by_cases hj : m.who = j
    · subst hj
      exact holding_self.trans hkeep
    · exact holding_of_ne hj
  refine ⟨inv.tagged, ?_, ?_⟩
  · simp only [hholding]
    exact inv.inFlight
  · simp only [hholding]
    exact inv.apart

/-- A delivery is handed out to a consumer that holds none. -/
theorem receive (inv : InHands h b) (hfree : holding (transcript m.who h) = none) {b' : Broker}
    (hreceive : b.receive = some (d, b')) (hx : m.exchange = ⟨.receive, some d⟩) :
    InHands (m :: h) b' := by
  have hself : holding (transcript m.who (m :: h)) = some d := by
    rw [holding_self, hx]
    rfl
  have hbusy : ∀ {j e}, holding (transcript j h) = some e → m.who ≠ j := by
    rintro j e he rfl
    rw [hfree] at he
    cases he
  have htagged := inv.tagged.receive hreceive
  obtain ⟨message, ready, -, hd, hb⟩ := Broker.receive_eq_some_iff.mp hreceive
  -- its tag is new
  have hnew : ∀ {j e}, holding (transcript j h) = some e → d.tag ≠ e.tag := by
    intro j e he
    have hle := inv.tagged.bounded _ ((inv.inFlight _).mpr ⟨j, e, he, rfl⟩)
    have htag : d.tag = b.lastTag + 1 := by rw [hd]
    dsimp only at hle
    omega
  have hflight : b'.inFlight = b.inFlight ++ [(d.tag, ⟨d.event, d.attempt⟩)] := by
    rw [hb, hd]
  refine ⟨htagged, ?_, ?_⟩
  · intro p
    rw [hflight, List.mem_append, List.mem_singleton, inv.inFlight]
    constructor
    · rintro (⟨j, e, he, rfl⟩ | rfl)
      · exact ⟨j, e, (holding_of_ne (hbusy he)).trans he, rfl⟩
      · exact ⟨m.who, d, hself, rfl⟩
    · rintro ⟨j, e, he, rfl⟩
      by_cases hj : m.who = j
      · subst hj
        obtain rfl : d = e := Option.some.inj (hself.symm.trans he)
        exact .inr rfl
      · exact .inl ⟨j, e, (holding_of_ne hj).symm.trans he, rfl⟩
  · intro j k e f he hf htag
    by_cases hj : m.who = j
    · by_cases hk : m.who = k
      · exact hj.symm.trans hk
      · subst hj
        obtain rfl : d = e := Option.some.inj (hself.symm.trans he)
        exact absurd htag (hnew ((holding_of_ne hk).symm.trans hf))
    · have he := (holding_of_ne hj).symm.trans he
      by_cases hk : m.who = k
      · subst hk
        obtain rfl : d = f := Option.some.inj (hself.symm.trans hf)
        exact absurd htag.symm (hnew he)
      · exact inv.apart j k e f he ((holding_of_ne hk).symm.trans hf) htag

/-- What a consumer holds is found in flight under its tag. -/
theorem lookup_eq (inv : InHands h b) {i : ι} (hholds : holding (transcript i h) = some d) :
    b.inFlight.lookup d.tag = some ⟨d.event, d.attempt⟩ :=
  inv.tagged.lookup_eq ((inv.inFlight (d.tag, ⟨d.event, d.attempt⟩)).mpr ⟨i, d, hholds, rfl⟩)

/-- A consumer settles what it holds; what others hold stays in flight. -/
theorem settle (inv : InHands h b) (hholds : holding (transcript m.who h) = some d)
    (hx : m.exchange = ⟨.settle d.tag x, ()⟩) : InHands (m :: h) (x.apply b d.tag) := by
  have hself : holding (transcript m.who (m :: h)) = none := by
    rw [holding_self, hx]
    rfl
  have hstill : ∀ {j e}, holding (transcript j (m :: h)) = some e →
      m.who ≠ j ∧ holding (transcript j h) = some e := by
    intro j e he
    have hj : m.who ≠ j := by
      rintro rfl
      rw [hself] at he
      cases he
    exact ⟨hj, (holding_of_ne hj).symm.trans he⟩
  obtain ⟨-, hflight, htag, -⟩ := (x.settles (inv.lookup_eq hholds)).frame
  refine ⟨inv.tagged.of_sublist htag (hflight ▸ List.filter_sublist), ?_, ?_⟩
  · intro p
    rw [hflight, Broker.others, List.mem_filter, inv.inFlight]
    constructor
    · rintro ⟨⟨j, e, he, rfl⟩, hne⟩
      refine ⟨j, e, (holding_of_ne ?_).trans he, rfl⟩
      rintro rfl
      obtain rfl : d = e := Option.some.inj (hholds.symm.trans he)
      simp at hne
    · rintro ⟨j, e, he, rfl⟩
      obtain ⟨hj, he⟩ := hstill he
      refine ⟨⟨j, e, he, rfl⟩, bne_iff_ne.mpr fun htag => ?_⟩
      exact hj (inv.apart _ _ _ _ hholds he htag.symm)
  · intro j k e f he hf
    exact inv.apart j k e f (hstill he).2 (hstill hf).2

end InHands

/-! ### What the broker and the store have counted -/

variable {Valid : σ → Prop} {held : σ → List Entry}

/-- The counters of the broker and the entries of the store are those of the moves. -/
structure Counted (held : σ → List Entry) (s₀ : Site σ) (h : List (Move shop ι (Site σ)))
    (s : Site σ) : Prop where
  settings : s.broker.settings = s₀.broker.settings
  appended : (held s.store).length = (held s₀.store).length + tally isAppend h
  delivered : s.broker.stats.delivered = s₀.broker.stats.delivered + tally isDelivery h
  acked : s.broker.stats.acked = s₀.broker.stats.acked + tally (settles Settlement.isAck) h
  nacked : s.broker.stats.nacked = s₀.broker.stats.nacked + tally (settles Settlement.isNack) h
  /-- Every refusal is that of a delivery. -/
  refused : (refused h).length = tally (settles Settlement.isNack) h
  /-- Messages were put away at once, or because they were refused once too often. -/
  deadLettered : s.broker.stats.deadLettered = s₀.broker.stats.deadLettered +
    (tally (settles Settlement.isDeadLetter) h +
      (Consumer.refused h).countP fun d => s₀.broker.settings.maxDeliveries ≤ d.attempt)
  /-- The counter tells how many were put away. -/
  dead : s.broker.dead.length + s₀.broker.stats.deadLettered =
    s₀.broker.dead.length + s.broker.stats.deadLettered

namespace Counted

theorem start (s : Site σ) : Counted held s ([] : List (Move shop ι (Site σ))) s :=
  ⟨rfl, rfl, rfl, rfl, rfl, rfl, rfl, rfl⟩

/-- What a move adds to the counters, and to the entries, is counted by its exchange. -/
theorem move (inv : Counted held s₀ h s) {t : σ} (hsettings : b.settings = s.broker.settings)
    (happended : (held t).length = (held s.store).length + if isAppend m.exchange then 1 else 0)
    (hdelivered : b.stats.delivered =
      s.broker.stats.delivered + if isDelivery m.exchange then 1 else 0)
    (hacked : b.stats.acked =
      s.broker.stats.acked + if settles Settlement.isAck m.exchange then 1 else 0)
    (hnacked : b.stats.nacked =
      s.broker.stats.nacked + if settles Settlement.isNack m.exchange then 1 else 0)
    (hrefused : (refusedBy (transcript m.who h) m.exchange).length =
      if settles Settlement.isNack m.exchange then 1 else 0)
    (hburied : b.stats.deadLettered = s.broker.stats.deadLettered +
      ((if settles Settlement.isDeadLetter m.exchange then 1 else 0) +
        (refusedBy (transcript m.who h) m.exchange).countP fun d =>
          s.broker.settings.maxDeliveries ≤ d.attempt))
    (hdead : b.dead.length + s.broker.stats.deadLettered =
      s.broker.dead.length + b.stats.deadLettered) :
    Counted held s₀ (m :: h) { s with broker := b, store := t } := by
  have htally : ∀ sort, tally sort (m :: h) = tally sort h + if sort m.exchange then 1 else 0 :=
    fun sort => List.countP_cons
  have holdburied := inv.deadLettered
  have holddead := inv.dead
  refine ⟨hsettings.trans inv.settings, ?_, ?_, ?_, ?_, ?_, ?_, ?_⟩
  · rw [htally, ← Nat.add_assoc, ← inv.appended]
    exact happended
  · rw [htally, ← Nat.add_assoc, ← inv.delivered]
    exact hdelivered
  · rw [htally, ← Nat.add_assoc, ← inv.acked]
    exact hacked
  · rw [htally, ← Nat.add_assoc, ← inv.nacked]
    exact hnacked
  · rw [htally, Consumer.refused, List.length_append, inv.refused, hrefused, Nat.add_comm]
  · rw [htally, Consumer.refused, List.countP_append]
    rw [inv.settings] at hburied
    show b.stats.deadLettered = _
    omega
  · show b.dead.length + _ = _ + b.stats.deadLettered
    omega

/-- A delivery is handed out. -/
theorem receive (inv : Counted held s₀ h s) (hreceive : s.broker.receive = some (d, b))
    (hx : m.exchange = ⟨.receive, some d⟩) :
    Counted held s₀ (m :: h) { s with broker := b } := by
  obtain ⟨message, ready, -, -, rfl⟩ := Broker.receive_eq_some_iff.mp hreceive
  obtain ⟨i, before, y, after⟩ := m
  obtain rfl : y = _ := hx
  exact inv.move rfl rfl rfl rfl rfl rfl rfl rfl

/-- What is in flight is settled. -/
theorem settle (inv : Counted held s₀ h s)
    (hfound : s.broker.inFlight.lookup d.tag = some ⟨d.event, d.attempt⟩)
    (hcurrent : current (transcript m.who h) = some d)
    (hx : m.exchange = ⟨.settle d.tag x, ()⟩) :
    Counted held s₀ (m :: h) { s with broker := x.apply s.broker d.tag } := by
  have hsettles := x.settles hfound
  generalize x.apply s.broker d.tag = b at hsettles ⊢
  obtain ⟨i, before, y, after⟩ := m
  obtain rfl : y = _ := hx
  have hrefused : refusedBy (transcript i h) ⟨.settle d.tag x, ()⟩ =
      if x.isNack then [d] else [] := by
    rw [refusedBy, show current (transcript i h) = some d from hcurrent]
    rfl
  have hlonger : ∀ letter n,
      (s.broker.dead ++ [letter]).length + n = s.broker.dead.length + (n + 1) := by
    intro letter n
    rw [List.length_append]
    exact Nat.add_right_comm ..
  cases hsettles with
  | done => exact inv.move rfl rfl rfl rfl rfl rfl rfl rfl
  | lost => exact inv.move rfl rfl rfl rfl rfl rfl rfl rfl
  | refused reason hleft =>
    have hleft : ¬s.broker.settings.maxDeliveries ≤ d.attempt :=
      UInt32.not_le.mpr hleft
    refine inv.move rfl rfl rfl rfl rfl (congrArg List.length hrefused) ?_ rfl
    simp [hrefused, hleft, settles, Settlement.isNack, Settlement.isDeadLetter]
  | exhausted reason hspent =>
    have hspent : s.broker.settings.maxDeliveries ≤ d.attempt := hspent
    refine inv.move rfl rfl rfl rfl rfl (congrArg List.length hrefused) ?_ (hlonger _ _)
    simp [hrefused, hspent, settles, Settlement.isNack, Settlement.isDeadLetter]
  | buried reason => exact inv.move rfl rfl rfl rfl rfl rfl rfl (hlonger _ _)

end Counted

/-! ### A whole run -/

variable [Store σ]

/-- An insert that is done adds an entry, and nothing else does. -/
theorem length_held_of_truthful (hσ : KeepsOrder σ Valid held) {s s' : σ} (hs : Valid s)
    {y : Exchange ledger} (hans : Truthful s y s') : Valid s' ∧
      (held s').length = (held s).length + if y.isCommit then 1 else 0 := by
  by_cases hcommit : y.isCommit = true
  · obtain ⟨e, rfl⟩ := Exchange.isCommit_iff.mp hcommit
    obtain ⟨hs', hfree, hplace⟩ := hσ.insert hs hans.unreliable.insert_eq
    rw [if_pos hcommit, hplace]
    exact ⟨hs', (place_perm hfree).length_eq⟩
  · rw [if_neg hcommit]
    rcases hans.state_cases with rfl | ⟨e, rfl, -⟩
    · exact ⟨hs, rfl⟩
    · exact absurd rfl hcommit

/-- What every move preserves. -/
structure Squares (Valid : σ → Prop) (held : σ → List Entry) (s₀ : Site σ)
    (h : List (Move shop ι (Site σ))) (s : Site σ) : Prop where
  /-- The store is in a state that inserts lead to. -/
  valid : Valid s.store
  inHands : InHands h s.broker
  counted : Counted held s₀ h s

/-- One move. -/
theorem Squares.move (hσ : KeepsOrder σ Valid held) (inv : Squares Valid held s₀ h m.before)
    (hask : InHand (transcript m.who h) m.exchange.request)
    (htends : Tends Truthful m.before m.exchange m.after) :
    Squares Valid held s₀ (m :: h) m.after := by
  obtain ⟨i, s, x, s'⟩ := m
  obtain ⟨hvalid, hhands, hcounted⟩ := inv
  change Tends Truthful s x s' at htends
  cases htends with
  | store hans =>
    obtain ⟨hvalid, hlength⟩ := length_held_of_truthful hσ hvalid hans
    exact ⟨hvalid, hhands.keep rfl, hcounted.move rfl hlength rfl rfl rfl rfl rfl rfl⟩
  | delivery hreceive =>
    exact ⟨hvalid, hhands.receive hask hreceive rfl, hcounted.receive hreceive rfl⟩
  | drained =>
    exact ⟨hvalid, hhands.keep hask.symm, hcounted.move rfl rfl rfl rfl rfl rfl rfl rfl⟩
  | settle tag x =>
    obtain ⟨d, hholds, rfl⟩ := hask
    exact ⟨hvalid, hhands.settle hholds rfl,
      hcounted.settle (hhands.lookup_eq hholds) (current_of_holding hholds) rfl⟩

variable {policy : ι → RetryPolicy} {rounds : ι → Nat} {Q : Pool shop ι (Site σ) Report}

/-- The books square at any time. -/
theorem Run.squares (hσ : KeepsOrder σ Valid held) (hs : Valid s.store)
    (hflight : s.broker.inFlight = []) (hrun : Run (Tends Truthful) (crew s policy rounds) h Q) :
    Squares Valid held s h Q.state :=
  hrun.invariant (fun i => work_tallies (policy i) (rounds i) .start)
    ⟨hs, .start hflight, .start s⟩ fun _ _ inv hask htends => inv.move hσ hask htends

/-! ### The end of a run -/

/-- The reports of so many consumers taken together. -/
def Report.total {n : ℕ} (reports : Fin n → Report) : Report :=
  (List.ofFn reports).foldl Report.add {}

theorem Report.foldl_add (l : List Report) (r : Report) : l.foldl Report.add r =
    ⟨r.appended + (l.map Report.appended).sum, r.duplicates + (l.map Report.duplicates).sum,
      r.nacked + (l.map Report.nacked).sum, r.deadLettered + (l.map Report.deadLettered).sum⟩ := by
  induction l generalizing r with
  | nil => rfl
  | cons a l ih =>
    rw [List.foldl_cons, ih]
    simp only [Report.add, List.map_cons, List.sum_cons, Nat.add_assoc]

theorem Report.total_eq {n : ℕ} (reports : Fin n → Report) : Report.total reports =
    ⟨∑ i, (reports i).appended, ∑ i, (reports i).duplicates, ∑ i, (reports i).nacked,
      ∑ i, (reports i).deadLettered⟩ := by
  simp [Report.total, Report.foldl_add, List.map_ofFn, List.sum_ofFn]

/-- The report of a crew that has come to its end, and the deliveries that it has refused, agree
with what has become of the site. -/
structure Reconciled (held : σ → List Entry) (s₀ : Site σ) (r : Report)
    (refusals : List Broker.Delivery) (s : Site σ) : Prop where
  /-- Nothing is in flight. -/
  inFlight : s.broker.inFlight = []
  /-- Every delivery was tallied once. -/
  delivered : s.broker.stats.delivered =
    s₀.broker.stats.delivered + (r.appended + r.duplicates + r.nacked + r.deadLettered)
  /-- New entries and known ones were acknowledged. -/
  acked : s.broker.stats.acked = s₀.broker.stats.acked + (r.appended + r.duplicates)
  nacked : s.broker.stats.nacked = s₀.broker.stats.nacked + r.nacked
  /-- As many deliveries were refused as the report says, -/
  refused : refusals.length = r.nacked
  /-- and what is put away was so at once, or refused at a delivery after which there is no
  other. -/
  deadLettered : s.broker.stats.deadLettered = s₀.broker.stats.deadLettered +
    (r.deadLettered + refusals.countP fun d => s₀.broker.settings.maxDeliveries ≤ d.attempt)
  dead : s.broker.dead.length = s₀.broker.dead.length +
    (r.deadLettered + refusals.countP fun d => s₀.broker.settings.maxDeliveries ≤ d.attempt)
  /-- The store has grown by the new entries. -/
  appended : (held s.store).length = (held s₀.store).length + r.appended

/-- **The report of a crew agrees with the broker and the store.**  So many consumers work on a
broker with which nobody else deals and on which nothing is in flight, and on a store that keeps its
sequences apart; their requests are answered in any order, calls to the store may fail, in which
case they change nothing, and the caller may cancel at any time.  Once all of them have come to
their ends, their reports taken together tell what the broker has counted and by how much the store
has grown. -/
theorem crew_reconciles {n : ℕ} {policy : Fin n → RetryPolicy} {rounds : Fin n → Nat}
    {h : List (Move shop (Fin n) (Site σ))} {Q : Pool shop (Fin n) (Site σ) Report}
    {reports : Fin n → Report} (hσ : KeepsOrder σ Valid held) (hs : Valid s.store)
    (hflight : s.broker.inFlight = []) (hrun : Run (Tends Truthful) (crew s policy rounds) h Q)
    (hdone : ∀ i, Q.program i = .done (reports i)) :
    Reconciled held s (Report.total reports) (refused h) Q.state := by
  have inv := Run.squares hσ hs hflight hrun
  have htallies : ∀ i, Tallies (transcript i h) (reports i) := by
    intro i
    have hobeys := hrun.obeys (fun i => work_tallies (policy i) (rounds i) .start) i
    rwa [hdone i] at hobeys
  -- what the crew has done is what its consumers have done
  have hsum : ∀ sort, tally sort h = ∑ i, (transcript i h).countP sort := fun sort =>
    countP_eq_sum sort h
  have happended : tally isAppend h = (Report.total reports).appended := by
    rw [hsum, Report.total_eq]
    exact Finset.sum_congr rfl fun i _ => (htallies i).appended.symm
  have hacked : tally (settles Settlement.isAck) h =
      (Report.total reports).appended + (Report.total reports).duplicates := by
    rw [hsum, Report.total_eq, ← Finset.sum_add_distrib]
    exact Finset.sum_congr rfl fun i _ => (htallies i).acked.symm
  have hnacked : tally (settles Settlement.isNack) h = (Report.total reports).nacked := by
    rw [hsum, Report.total_eq]
    exact Finset.sum_congr rfl fun i _ => (htallies i).nacked.symm
  have hburied : tally (settles Settlement.isDeadLetter) h =
      (Report.total reports).deadLettered := by
    rw [hsum, Report.total_eq]
    exact Finset.sum_congr rfl fun i _ => (htallies i).deadLettered.symm
  have hdelivered : tally isDelivery h = (Report.total reports).appended +
      (Report.total reports).duplicates + (Report.total reports).nacked +
        (Report.total reports).deadLettered := by
    rw [hsum, Report.total_eq]
    simp only [← Finset.sum_add_distrib]
    exact Finset.sum_congr rfl fun i _ => (htallies i).delivered.symm
  have hdeadLettered := inv.counted.deadLettered
  have hdead := inv.counted.dead
  rw [hburied] at hdeadLettered
  exact {
    inFlight := by
      refine List.eq_nil_iff_forall_not_mem.mpr fun p hp => ?_
      obtain ⟨j, d, hd, -⟩ := (inv.inHands.inFlight p).mp hp
      rw [(htallies j).free] at hd
      cases hd
    delivered := hdelivered ▸ inv.counted.delivered
    acked := hacked ▸ inv.counted.acked
    nacked := hnacked ▸ inv.counted.nacked
    refused := inv.counted.refused.trans hnacked
    deadLettered := hdeadLettered
    dead := by
      show _ = _
      omega
    appended := happended ▸ inv.counted.appended }

/-- The report of a consumer that has come to its end. -/
def reportOf : Program shop Report → Option Report
  | .done r => some r
  | _ => none

theorem eq_done_of_reportOf {p : Program shop Report} {r : Report} (h : reportOf p = some r) :
    p = .done r := by
  cases p with
  | done a => exact congrArg Program.done (Option.some.inj h)
  | crash why => cases h
  | ask q next => cases h

/-- A broker that loses every second acknowledgement and gives up after the second delivery. -/
def shift : Site MemoryStore where
  broker := ({ settings := ⟨none, some 2, 2⟩ } : Broker).publishAll
    [.bare "first" "1", .bare "second" "2", .bare "third" "3", .bare "fourth" "4",
      .bare "fifth" "5"]
  store := .empty

/-- Two consumers that do not wait for a store that is unavailable. -/
def pair : Pool shop (Fin 2) (Site MemoryStore) Report :=
  crew shift (fun _ => { maxTransientRetries := 0 }) fun _ => 10

/-- The store is unavailable to the second consumer, whose deliveries come back or are put away, and
fails the first one for good; an acknowledgement is lost; then the caller cancels, while the second
consumer holds a delivery. -/
def pairTurns : List (Fin 2 × Answer) :=
  let next (i : Fin 2) (n : Nat) : List (Fin 2 × Answer) := List.replicate n (i, .serve false)
  let busy : List (Fin 2 × Answer) := next 1 3 ++ [(1, .fail (.unavailable "busy"))]
  next 0 4 ++ busy ++ next 0 5 ++ next 1 2 ++ next 0 3 ++ [(0, .fail (.backend "disk full"))] ++
    next 0 2 ++ busy ++ next 1 2 ++ next 0 9 ++ busy ++ next 1 4 ++ next 0 6 ++
    [(1, .serve true), (0, .serve true)] ++ next 1 2 ++ [(1, .serve true)]

theorem crew_reconciles_pair :
    let played := play pair pair.state (pairTurns.map fun turn => .answer turn.1 turn.2)
    let s := played.2.1.state
    shift.broker.inFlight = [] ∧ s.broker.stats = ⟨5, 0, 8, 3, 3, 1, 4, 3⟩ ∧
      (refused played.1).map (fun d => (d.event.entityId, d.attempt)) =
        [("4", 2), ("2", 2), ("4", 1), ("2", 1)] ∧
      s.store.entries.map (fun e => e.event.dedupKey.text) = ["first", "fifth"] ∧
      Reconciled MemoryStore.entries shift ⟨2, 1, 4, 1⟩ (refused played.1) s := by
  intro played s
  let reports : Fin 2 → Report := ![⟨2, 1, 0, 1⟩, ⟨0, 0, 4, 0⟩]
  have hhonest : ∀ turn ∈ pairTurns, turn.2.isHonest = true := by decide
  have hrun : Run (Tends Truthful) pair played.1 played.2.1 :=
    run_play_answers pairTurns fun turn hturn => Answer.truthful (hhonest turn hturn)
  have hreports : ∀ i, reportOf (played.2.1.program i) = some (reports i) := by decide +kernel
  have hdone : ∀ i, played.2.1.program i = .done (reports i) := fun i =>
    eq_done_of_reportOf (hreports i)
  have hreconciled := crew_reconciles MemoryStore.keepsOrder trivial rfl hrun hdone
  exact ⟨rfl, by decide +kernel, by decide +kernel, by decide +kernel, hreconciled⟩

end AuditChain.Consumer
