import AuditChain.Program
import Mathlib.Algebra.BigOperators.Group.Finset.Piecewise
import Mathlib.Data.Fintype.Card
import Mathlib.Data.List.Basic
import Mathlib.Logic.Function.Basic

/-!
# Programs side by side

Programs of several callers share a state and are answered one request at a time, in any order.
What one program may do is read off its tree alone, whatever it is answered; what a run of all of
them keeps true follows by induction on the run, one request at a time, from what each caller may
ask after what it has asked before.

## Main definitions

* `Exchange`, `Program.Obeys` — a request with its reply, and what a program keeps to on its own.
* `Program.Asks` — a program makes only requests of one kind.
* `Program.caught` — a program whose crash is one of its results.
* `Move`, `Pool`, `Run` — one request answered, programs over a state, and their runs.
* `transcript`, `movesOf` — the exchanges of one caller, and its moves.
* `Program.Meets` — what a program comes to if its moves are of one sort.

## Main results

* `Program.Obeys.bind` — a chain of programs keeps to what its parts keep to.
* `Program.Obeys.behind` — a program keeps to it with older exchanges behind it.
* `Program.Obeys.embed` — a program keeps to it in a larger interface.
* `Run.obeys`, `Run.allowed` — a program goes on keeping to it within a run.
* `countP_eq_sum` — what all callers have exchanged, counted caller by caller.
* `Run.invariant` — **what every move keeps true, a run keeps true.**
* `Run.meets` — a program goes on meeting its expectations within a run.
-/

namespace AuditChain

variable {I : Interface} {α β ι σ : Type}

/-! ### One program -/

/-- A request with its reply. -/
structure Exchange (I : Interface) where
  /-- What was asked. -/
  request : I.Request
  /-- What was answered. -/
  reply : I.Reply request

/-- What a program was answered so far, the last exchange first. -/
abbrev Transcript (I : Interface) := List (Exchange I)

/-- A program with the exchanges `l` behind it asks only what `may` allows after its exchanges, and
ends only with a result that `post` allows, whatever it is answered. -/
def Program.Obeys (may : Transcript I → I.Request → Prop) (post : Transcript I → α → Prop) :
    Program I α → Transcript I → Prop
  | .done a, l => post l a
  | .crash _, _ => True
  | .ask r next, l => may l r ∧ ∀ reply, (next reply).Obeys may post (⟨r, reply⟩ :: l)

namespace Program.Obeys

variable {may : Transcript I → I.Request → Prop} {post : Transcript I → α → Prop}

/-- A chain of programs keeps to what the first one keeps to, if the second one goes on from its
results. -/
theorem bind {post' : Transcript I → β → Prop} {p : Program I α} {f : α → Program I β}
    {l : Transcript I} (hp : p.Obeys may post l)
    (hf : ∀ l a, post l a → (f a).Obeys may post' l) : (p.bind f).Obeys may post' l := by
  induction p generalizing l with
  | done a => exact hf l a hp
  | crash why => trivial
  | ask r next ih =>
    refine ⟨hp.1, ?_⟩
    intro reply
    exact ih reply (hp.2 reply)

/-- With older exchanges behind it a program keeps to what it keeps to without them, if what is
allowed without them is allowed with them. -/
theorem behind {may' : Transcript I → I.Request → Prop} {post' : Transcript I → α → Prop}
    {p : Program I α} {l l₀ : Transcript I} (hp : p.Obeys may post l)
    (hmay : ∀ l r, may l r → may' (l ++ l₀) r) (hpost : ∀ l a, post l a → post' (l ++ l₀) a) :
    p.Obeys may' post' (l ++ l₀) := by
  induction p generalizing l with
  | done a => exact hpost l a hp
  | crash why => trivial
  | ask r next ih =>
    refine ⟨hmay l r hp.1, ?_⟩
    intro reply
    exact ih reply (hp.2 reply)

/-- Once an exchange has been made after which everything is allowed, any program keeps to it. -/
theorem of_mem {x : Exchange I} (hmay : ∀ l r, x ∈ l → may l r) (hpost : ∀ l a, x ∈ l → post l a)
    (p : Program I α) {l : Transcript I} (hx : x ∈ l) : p.Obeys may post l := by
  induction p generalizing l with
  | done a => exact hpost l a hx
  | crash why => trivial
  | ask r next ih => exact ⟨hmay l r hx, fun reply => ih reply (List.mem_cons_of_mem _ hx)⟩

/-- A program whose requests are put to another interface keeps to what it keeps to by itself, where
`see` tells what it sees of the exchanges there, and `inv` holds of them as long as it goes on. -/
theorem embed {J : Interface} (e : I.Embedding J) (see : Transcript J → Transcript I)
    (inv : Transcript J → Prop) {may' : Transcript J → J.Request → Prop}
    {post' : Transcript J → α → Prop}
    (hsee : ∀ l r reply, see (⟨e.request r, reply⟩ :: l) = ⟨r, e.reply r reply⟩ :: see l)
    (hinv : ∀ l r reply, inv l → inv (⟨e.request r, reply⟩ :: l))
    (hmay : ∀ l r, inv l → may (see l) r → may' l (e.request r))
    (hpost : ∀ l a, inv l → post (see l) a → post' l a) {p : Program I α} {l : Transcript J}
    (hl : inv l) (hp : p.Obeys may post (see l)) : (p.embed e).Obeys may' post' l := by
  induction p generalizing l with
  | done a => exact hpost l a hl hp
  | crash why => trivial
  | ask r next ih =>
    refine ⟨hmay l r hl hp.1, ?_⟩
    intro reply
    refine ih (e.reply r reply) (hinv l r reply hl) ?_
    rw [hsee]
    exact hp.2 (e.reply r reply)

end Program.Obeys

/-- A program makes only requests of one kind. -/
def Program.Asks (kind : I.Request → Prop) : Program I α → Prop
  | .done _ => True
  | .crash _ => True
  | .ask r next => kind r ∧ ∀ reply, (next reply).Asks kind

namespace Program.Asks

variable {kind : I.Request → Prop}

/-- A chain of programs makes requests of one kind if its parts do. -/
theorem bind {p : Program I α} {f : α → Program I β} (hp : p.Asks kind)
    (hf : ∀ a, (f a).Asks kind) : (p.bind f).Asks kind := by
  induction p with
  | done a => exact hf a
  | crash why => trivial
  | ask r next ih => exact ⟨hp.1, fun reply => ih reply (hp.2 reply)⟩

/-- Requests of one kind are of any wider kind. -/
theorem mono {kind' : I.Request → Prop} (h : ∀ r, kind r → kind' r) {p : Program I α}
    (hp : p.Asks kind) : p.Asks kind' := by
  induction p with
  | done a => trivial
  | crash why => trivial
  | ask r next ih => exact ⟨h r hp.1, fun reply => ih reply (hp.2 reply)⟩

/-- Whatever is allowed for requests of the kind, whenever they are made, the program keeps to. -/
theorem obeys {may : Transcript I → I.Request → Prop} {p : Program I α} (hp : p.Asks kind)
    (hmay : ∀ l r, kind r → may l r) (l : Transcript I) : p.Obeys may (fun _ _ => True) l := by
  induction p generalizing l with
  | done a => trivial
  | crash why => trivial
  | ask r next ih => exact ⟨hmay l r hp.1, fun reply => ih reply (hp.2 reply) _⟩

end Program.Asks

/-- A program whose crash is one of its results. -/
def Program.caught : Program I α → Program I (Except Crash α)
  | .done a => .done (.ok a)
  | .crash why => .done (.error why)
  | .ask r next => .ask r fun reply => (next reply).caught

theorem Program.caught_bind (p : Program I α) (f : α → Program I β) :
    (p.bind f).caught = p.caught.bind fun
      | .ok a => (f a).caught
      | .error why => .done (.error why) := by
  induction p with
  | done a => rfl
  | crash why => rfl
  | ask r next ih => exact congrArg (Program.ask r) (funext ih)

/-! ### Many programs -/

/-- One request answered: whose it was, and the state before and after. -/
structure Move (I : Interface) (ι σ : Type) where
  /-- Who asked. -/
  who : ι
  /-- The state before. -/
  before : σ
  /-- What was asked and answered. -/
  exchange : Exchange I
  /-- The state after. -/
  after : σ

/-- Programs of several callers, each as far as it has come, and the state they share. -/
structure Pool (I : Interface) (ι σ α : Type) where
  /-- The shared state. -/
  state : σ
  /-- What is left to do, for each caller. -/
  program : ι → Program I α

/-- The programs with their crashes among their results. -/
def Pool.caught (P : Pool I ι σ α) : Pool I ι σ (Except Crash α) :=
  ⟨P.state, fun i => (P.program i).caught⟩

/-- A program of `i` that has made the moves `own`, the last one first, asks on only after fewer
than `bound` of them and ends with a result that `post` allows after all of them, as long as `sees`
holds of them. -/
def Program.Meets (sees : List (Move I ι σ) → Prop) (bound : ℕ)
    (post : List (Move I ι σ) → α → Prop) (i : ι) : Program I α → List (Move I ι σ) → Prop
  | .done a, own => post own a
  | .crash _, _ => False
  | .ask r next, own => own.length < bound ∧ ∀ s reply s',
      sees (⟨i, s, ⟨r, reply⟩, s'⟩ :: own) →
        (next reply).Meets sees bound post i (⟨i, s, ⟨r, reply⟩, s'⟩ :: own)

namespace Program.Meets

variable {sees : List (Move I ι σ) → Prop} {bound : ℕ} {i : ι} {own : List (Move I ι σ)}

/-- A chain of programs meets what the second one meets after the results of the first one. -/
theorem bind {post : List (Move I ι σ) → α → Prop} {post' : List (Move I ι σ) → β → Prop}
    {p : Program I α} {f : α → Program I β} (hp : p.Meets sees bound post i own)
    (hf : ∀ own a, post own a → (f a).Meets sees bound post' i own) :
    (p.bind f).Meets sees bound post' i own := by
  induction p generalizing own with
  | done a => exact hf own a hp
  | crash why => exact hp
  | ask r next ih =>
    refine ⟨hp.1, ?_⟩
    intro s reply s' hsees
    exact ih reply (hp.2 s reply s' hsees)

/-- What is met by results that come after older moves. -/
theorem imp {post post' : List (Move I ι σ) → α → Prop} {own₀ : List (Move I ι σ)}
    {p : Program I α} (hp : p.Meets sees bound post i own) (hown : own₀ <:+ own)
    (hpost : ∀ own a, own₀ <:+ own → post own a → post' own a) :
    p.Meets sees bound post' i own := by
  induction p generalizing own with
  | done a => exact hpost own a hown hp
  | crash why => exact hp
  | ask r next ih =>
    refine ⟨hp.1, ?_⟩
    intro s reply s' hsees
    exact ih reply (hp.2 s reply s' hsees) (hown.trans (List.suffix_cons _ _))

end Program.Meets

variable [DecidableEq ι]

/-- The exchanges of one caller. -/
def transcript (i : ι) (h : List (Move I ι σ)) : Transcript I :=
  (h.filter fun m => m.who = i).map Move.exchange

theorem transcript_cons_of_eq {m : Move I ι σ} {i : ι} (heq : m.who = i) (h : List (Move I ι σ)) :
    transcript i (m :: h) = m.exchange :: transcript i h := by
  simp [transcript, heq]

theorem transcript_cons_of_ne {m : Move I ι σ} {i : ι} (hne : m.who ≠ i)
    (h : List (Move I ι σ)) : transcript i (m :: h) = transcript i h := by
  simp [transcript, hne]

theorem transcript_append (i : ι) (later h : List (Move I ι σ)) :
    transcript i (later ++ h) = transcript i later ++ transcript i h := by
  simp [transcript]

theorem mem_transcript {i : ι} {h : List (Move I ι σ)} {x : Exchange I} :
    x ∈ transcript i h ↔ ∃ m ∈ h, m.who = i ∧ m.exchange = x := by
  simp [transcript, and_assoc]

/-- The exchanges of one sort are those of all callers. -/
theorem countP_eq_sum [Fintype ι] (sort : Exchange I → Bool) (h : List (Move I ι σ)) :
    (h.countP fun m => sort m.exchange) = ∑ i, (transcript i h).countP sort := by
  induction h with
  | nil => simp [transcript]
  | cons m h ih =>
    have hcons : ∀ i, (transcript i (m :: h)).countP sort = (transcript i h).countP sort +
        if i = m.who then (if sort m.exchange then 1 else 0) else 0 := by
      intro i
      by_cases hi : m.who = i
      · rw [transcript_cons_of_eq hi, List.countP_cons, if_pos hi.symm]
      · rw [transcript_cons_of_ne hi, if_neg (Ne.symm hi), Nat.add_zero]
    simp only [hcons, Finset.sum_add_distrib, ← ih, Finset.sum_ite_eq', Finset.mem_univ, if_true]
    exact List.countP_cons

/-- The last exchange of a caller belongs to its last move. -/
theorem exists_of_transcript_eq_cons {i : ι} {h : List (Move I ι σ)} {x : Exchange I}
    {l : Transcript I} (hl : transcript i h = x :: l) :
    ∃ later m earlier, h = later ++ m :: earlier ∧ (∀ n ∈ later, n.who ≠ i) ∧ m.who = i ∧
      m.exchange = x ∧ transcript i earlier = l := by
  induction h with
  | nil => cases hl
  | cons n h ih =>
    by_cases hn : n.who = i
    · rw [transcript_cons_of_eq hn] at hl
      obtain ⟨rfl, rfl⟩ := List.cons.inj hl
      exact ⟨[], n, h, rfl, fun _ hm => absurd hm List.not_mem_nil, hn, rfl, rfl⟩
    · rw [transcript_cons_of_ne hn] at hl
      obtain ⟨later, m, earlier, rfl, hlater, hm⟩ := ih hl
      exact ⟨n :: later, m, earlier, rfl, List.forall_mem_cons.mpr ⟨hn, hlater⟩, hm⟩

/-- The moves that lead from one pool to another, the last one first, where `answers` tells how a
request may be answered in a state. -/
inductive Run (answers : σ → Exchange I → σ → Prop) (P : Pool I ι σ α) :
    List (Move I ι σ) → Pool I ι σ α → Prop where
  /-- Nothing has happened. -/
  | start : Run answers P [] P
  /-- A caller is answered. -/
  | move {h : List (Move I ι σ)} {Q : Pool I ι σ α} {i : ι} {r : I.Request}
      {next : I.Reply r → Program I α} {reply : I.Reply r} {s : σ} (hrun : Run answers P h Q)
      (hask : Q.program i = .ask r next) (hans : answers Q.state ⟨r, reply⟩ s) :
      Run answers P (⟨i, Q.state, ⟨r, reply⟩, s⟩ :: h)
        ⟨s, Function.update Q.program i (next reply)⟩

variable {answers : σ → Exchange I → σ → Prop} {P Q R : Pool I ι σ α}
  {h h' : List (Move I ι σ)}

/-- Two runs, one after the other. -/
theorem Run.trans (hPQ : Run answers P h Q) (hQR : Run answers Q h' R) :
    Run answers P (h' ++ h) R := by
  induction hQR with
  | start => exact hPQ
  | move hrun hask hans ih => exact ih.move hask hans

/-- What has happened in two parts is two runs, one after the other. -/
theorem Run.split (hrun : Run answers P (h' ++ h) R) :
    ∃ Q, Run answers P h Q ∧ Run answers Q h' R := by
  induction h' generalizing R with
  | nil => exact ⟨R, hrun, .start⟩
  | cons m h' ih =>
    cases hrun with
    | move hrun hask hans =>
      obtain ⟨Q, hPQ, hQR⟩ := ih hrun
      exact ⟨Q, hPQ, hQR.move hask hans⟩

/-- The last move of a run answers what its caller asked. -/
theorem Run.last {m : Move I ι σ} (hrun : Run answers P (m :: h) R) :
    ∃ Q next, Run answers P h Q ∧ Q.state = m.before ∧
      Q.program m.who = .ask m.exchange.request next ∧
      answers m.before m.exchange m.after ∧ R.state = m.after := by
  cases hrun with
  | @move _ Q _ _ next _ _ hrun hask hans => exact ⟨Q, next, hrun, rfl, hask, hans, rfl⟩

/-- Every move of a run is an answer. -/
theorem Run.answered (hrun : Run answers P h Q) :
    ∀ m ∈ h, answers m.before m.exchange m.after := by
  induction hrun with
  | start => exact fun _ hm => absurd hm List.not_mem_nil
  | move _ _ hans ih => exact List.forall_mem_cons.mpr ⟨hans, ih⟩

/-- Requests that are answered in one way are answered in any way that is more general. -/
theorem Run.mono {answers' : σ → Exchange I → σ → Prop}
    (hmono : ∀ s x s', answers s x s' → answers' s x s') (hrun : Run answers P h Q) :
    Run answers' P h Q := by
  induction hrun with
  | start => exact .start
  | move _ hask hans ih => exact ih.move hask (hmono _ _ _ hans)

/-- Programs run as they do when their crashes are among their results. -/
theorem Run.caught (hrun : Run answers P h Q) : Run answers P.caught h Q.caught := by
  induction hrun with
  | start => exact .start
  | @move h Q i r next reply s _ hask hans ih =>
    have hcaught : Q.caught.program i = .ask r fun reply => (next reply).caught := by
      show (Q.program i).caught = _
      rw [hask]
      rfl
    have hupdate : (⟨s, Function.update Q.program i (next reply)⟩ : Pool I ι σ α).caught =
        ⟨s, Function.update Q.caught.program i (next reply).caught⟩ := by
      refine congrArg (Pool.mk s) (funext fun j => ?_)
      exact Function.apply_update (fun _ => Program.caught) Q.program i (next reply) j
    rw [hupdate]
    exact ih.move hcaught hans

/-- A program that has its result keeps it. -/
theorem Run.done_stays (hrun : Run answers P h Q) {i : ι} {a : α} (hdone : P.program i = .done a) :
    Q.program i = .done a := by
  induction hrun with
  | start => exact hdone
  | @move h Q j r next reply s _ hask _ ih =>
    -- only a program that asks is answered
    have hij : i ≠ j := by
      rintro rfl
      rw [hask] at ih
      cases ih
    show Function.update Q.program j (next reply) i = .done a
    rw [Function.update_of_ne hij]
    exact ih

variable {may : ι → Transcript I → I.Request → Prop} {post : ι → Transcript I → α → Prop}

/-- Within a run a program goes on keeping to what it keeps to on its own. -/
theorem Run.obeys (hrun : Run answers P h Q)
    (hP : ∀ i, (P.program i).Obeys (may i) (post i) []) (i : ι) :
    (Q.program i).Obeys (may i) (post i) (transcript i h) := by
  induction hrun with
  | start => exact hP i
  | @move h Q j r next reply s _ hask _ ih =>
    let m : Move I ι σ := ⟨j, Q.state, ⟨r, reply⟩, s⟩
    show (Function.update Q.program j (next reply) i).Obeys (may i) (post i) (transcript i (m :: h))
    by_cases hij : i = j
    · subst hij
      rw [hask] at ih
      rw [Function.update_self, transcript_cons_of_eq (m := m) rfl h]
      exact ih.2 reply
    · rw [Function.update_of_ne hij, transcript_cons_of_ne (m := m) (Ne.symm hij)]
      exact ih

/-- Every request of a run was one that its caller might make. -/
theorem Run.allowed {m : Move I ι σ} (hrun : Run answers P (h' ++ m :: h) Q)
    (hP : ∀ i, (P.program i).Obeys (may i) (post i) []) :
    may m.who (transcript m.who h) m.exchange.request := by
  obtain ⟨R, hR, -⟩ := hrun.split
  obtain ⟨S, next, hS, -, hask, -⟩ := hR.last
  have hobeys := hS.obeys hP m.who
  rw [hask] at hobeys
  exact hobeys.1

/-- Within a run a program goes on making requests of one kind. -/
theorem Run.asks {kind : I.Request → Prop} (hrun : Run answers P h Q)
    (hP : ∀ i, (P.program i).Asks kind) (i : ι) : (Q.program i).Asks kind := by
  induction hrun generalizing i with
  | start => exact hP i
  | @move h Q j r next reply s _ hask _ ih =>
    show (Function.update Q.program j (next reply) i).Asks kind
    by_cases hij : i = j
    · subst hij
      have hi := ih i
      rw [hask] at hi
      rw [Function.update_self]
      exact hi.2 reply
    · rw [Function.update_of_ne hij]
      exact ih i

/-- **What every move keeps true, a run keeps true.**  A move may rely on what its caller may ask
after its exchanges so far, and on how it was answered. -/
theorem Run.invariant {inv : List (Move I ι σ) → σ → Prop} (hrun : Run answers P h Q)
    (hP : ∀ i, (P.program i).Obeys (may i) (post i) []) (h0 : inv [] P.state)
    (hstep : ∀ h m, inv h m.before → may m.who (transcript m.who h) m.exchange.request →
      answers m.before m.exchange m.after → inv (m :: h) m.after) : inv h Q.state := by
  induction hrun with
  | start => exact h0
  | @move h Q j r next reply s hrun hask hans ih =>
    have hobeys := hrun.obeys hP j
    rw [hask] at hobeys
    exact hstep h ⟨j, Q.state, ⟨r, reply⟩, s⟩ ih hobeys.1 hans

/-! ### What a program comes to among others -/

/-- The moves of one caller. -/
def movesOf (i : ι) (h : List (Move I ι σ)) : List (Move I ι σ) :=
  h.filter fun m => m.who = i

theorem movesOf_cons_of_eq {m : Move I ι σ} {i : ι} (heq : m.who = i) (h : List (Move I ι σ)) :
    movesOf i (m :: h) = m :: movesOf i h := by
  simp [movesOf, heq]

theorem movesOf_cons_of_ne {m : Move I ι σ} {i : ι} (hne : m.who ≠ i) (h : List (Move I ι σ)) :
    movesOf i (m :: h) = movesOf i h := by
  simp [movesOf, hne]

/-- Within a run a program goes on meeting what it meets on its own. -/
theorem Run.meets {sees : List (Move I ι σ) → Prop} {bound : ℕ}
    {post : List (Move I ι σ) → α → Prop} {i : ι} (hrun : Run answers P h Q)
    (hP : (P.program i).Meets sees bound post i [])
    (hclosed : ∀ m own, sees (m :: own) → sees own) (hsees : sees (movesOf i h)) :
    (Q.program i).Meets sees bound post i (movesOf i h) := by
  induction hrun with
  | start => exact hP
  | @move h Q j r next reply s _ hask _ ih =>
    let m : Move I ι σ := ⟨j, Q.state, ⟨r, reply⟩, s⟩
    show (Function.update Q.program j (next reply) i).Meets sees bound post i (movesOf i (m :: h))
    by_cases hij : i = j
    · subst hij
      rw [movesOf_cons_of_eq (m := m) rfl h] at hsees ⊢
      have hmeets := ih (hclosed _ _ hsees)
      rw [hask] at hmeets
      rw [Function.update_self]
      exact hmeets.2 _ reply _ hsees
    · rw [movesOf_cons_of_ne (m := m) (Ne.symm hij)] at hsees ⊢
      rw [Function.update_of_ne hij]
      exact ih hsees

end AuditChain
