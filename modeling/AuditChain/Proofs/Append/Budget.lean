import AuditChain.Proofs.Append.Agreement
import AuditChain.Proofs.Append.Overtaking

/-!
# A budget for as many attempts as there are writers

Whoever loses a sequence was overtaken by a writer that has committed, and is not overtaken by the
same commit again: the next tail comes after it.  So of `n` writers none can lose more than `n - 1`
inserts, and a budget of `n` attempts suffices for all of them.

## Main definitions

* `MadeAt` — what a caller was answered at some place of a run.
* `LostTo` — an insert that was lost to a commit.
* `Suffices` — what a sufficient budget brings about.

## Main results

* `Run.lostTo`, `LostTo.not_lt` — every lost insert was lost to a commit of its own.
* `Run.ended`, `Run.growth` — nobody fails, and every new key brings one entry.
* `budget_suffices` — **a budget for as many attempts as there are writers suffices.**
-/

namespace AuditChain

open LawfulStore (Valid held)

/-! ### Places in a run -/

section Places

variable {I : Interface} {ι σ : Type} {h later : List (Move I ι σ)} {m n : Move I ι σ} {k : ℕ}

/-- The move at a place of a run, counted from the first move. -/
def MoveAt (h : List (Move I ι σ)) (k : ℕ) (m : Move I ι σ) : Prop :=
  h.reverse[k]? = some m

/-- What a caller was answered at a place of a run. -/
def MadeAt (h : List (Move I ι σ)) (i : ι) (k : ℕ) (x : Exchange I) : Prop :=
  ∃ m, MoveAt h k m ∧ m.who = i ∧ m.exchange = x

theorem moveAt_length (later : List (Move I ι σ)) (m : Move I ι σ) (h : List (Move I ι σ)) :
    MoveAt (later ++ m :: h) h.length m := by
  simp [MoveAt]

/-- At one place there is one exchange. -/
theorem MadeAt.unique {i j : ι} {x y : Exchange I} (hx : MadeAt h i k x) (hy : MadeAt h j k y) :
    x = y := by
  obtain ⟨m, hm, -, rfl⟩ := hx
  obtain ⟨n, hn, -, rfl⟩ := hy
  rw [Option.some.inj (hm.symm.trans hn)]

/-- A move stands between earlier and later ones. -/
theorem MoveAt.exists_split (hm : MoveAt h k m) :
    ∃ later earlier, h = later ++ m :: earlier ∧ earlier.length = k := by
  obtain ⟨hk, hget⟩ := List.getElem?_eq_some_iff.mp hm
  refine ⟨(h.reverse.drop (k + 1)).reverse, (h.reverse.take k).reverse, ?_, ?_⟩
  · rw [← List.reverse_inj, List.reverse_append, List.reverse_cons, List.reverse_reverse,
      List.reverse_reverse, List.append_assoc, List.singleton_append, ← hget,
      List.getElem_cons_drop, List.take_append_drop]
  · rw [List.length_reverse, List.length_take]
    omega

theorem MoveAt.of_lt (hm : MoveAt (later ++ h) k m) (hk : k < h.length) : MoveAt h k m := by
  rwa [MoveAt, List.reverse_append, List.getElem?_append_left (by rwa [List.length_reverse])] at hm

theorem MoveAt.mem_of_le (hm : MoveAt (later ++ h) k m) (hk : h.length ≤ k) : m ∈ later := by
  rw [MoveAt, List.reverse_append, List.getElem?_append_right (by rwa [List.length_reverse])] at hm
  exact List.mem_reverse.mp (List.mem_of_getElem? hm)

end Places

/-! ### The budget -/

/-- The insert of `e` that caller `i` has made at place `k` was lost to the commit at place `c`. -/
structure LostTo {ι : Type} (h : List (Move ledger ι MemoryStore)) (i : ι) (e : Entry)
    (k c : ℕ) : Prop where
  /-- The commit came before the insert, -/
  before : c < k
  /-- and after the tail that the insert rests on: since then the caller has asked only whether it
  has cancelled. -/
  after : ∃ r tail, r < c ∧ MadeAt h i r ⟨.tail, .ok tail⟩ ∧
    ∀ q x, r < q → q < k → MadeAt h i q x → x.request = .cancelled
  /-- Another caller has committed the sequence. -/
  commit : ∃ j d, j ≠ i ∧ MadeAt h j c ⟨.insert d, .ok ()⟩ ∧ d.sequence = e.sequence

/-- No commit comes between an insert and the tail of a later one, so two inserts are not lost to
the same. -/
theorem LostTo.not_lt {ι : Type} {h : List (Move ledger ι MemoryStore)} {i : ι} {e e' : Entry}
    {k k' c : ℕ} (hk : LostTo h i e k c) (hk' : LostTo h i e' k' c)
    {reply : Except StoreError Unit} (hmade : MadeAt h i k ⟨.insert e, reply⟩) : ¬k < k' := by
  intro hlt
  obtain ⟨r, tail, hrc, -, hpending⟩ := hk'.after
  have hcancelled := hpending k _ (Nat.lt_trans hrc hk.before) hlt hmade
  cases hcancelled

section Budget

variable {ι : Type} [DecidableEq ι] {m₀ : MemoryStore} {policy : ι → RetryPolicy}
  {event : ι → Event} {h : List (Move ledger ι MemoryStore)}
  {Q : Pool ledger ι MemoryStore (Except AuditError Outcome)} {i : ι} {e : Entry} {k : ℕ}

/-- Every lost insert was lost to some commit. -/
theorem Run.lostTo (hm₀ : m₀.Indexed) (hrun : Run Attends (writers m₀ policy event) h Q)
    (hlost : MadeAt h i k ⟨.insert e, .error (.uniqueViolation .sequence)⟩) :
    ∃ c, LostTo h i e k c := by
  obtain ⟨m, hm, rfl, hx⟩ := hlost
  obtain ⟨later, h₁, rfl, rfl⟩ := hm.exists_split
  obtain ⟨R, hR, -⟩ := hrun.split
  obtain ⟨mid, r, earlier, rfl, hover⟩ := hR.overtaken hm₀ hx
  obtain ⟨hr, tail, hrx⟩ := hover.read
  obtain ⟨n, hn, hne, d, hnx, hsequence⟩ := hover.winner
  obtain ⟨mid₁, mid₂, rfl⟩ := List.append_of_mem hn
  refine ⟨(mid₂ ++ r :: earlier).length, ?_, ?_, ?_⟩
  · simp only [List.length_append, List.length_cons]
    omega
  · refine ⟨earlier.length, tail, ?_, ⟨r, ?_, hr, hrx⟩, ?_⟩
    · simp only [List.length_append, List.length_cons]
      omega
    · have hplace := moveAt_length (later ++ m :: (mid₁ ++ n :: mid₂)) r earlier
      simpa using hplace
    · rintro q x hrq hqk ⟨n', hn', hwho, rfl⟩
      have hplace : MoveAt ((later ++ [m]) ++ ((mid₁ ++ n :: mid₂) ++ r :: earlier)) q n' := by
        simpa using hn'
      exact hover.pending n' ((hplace.of_lt hqk).mem_of_le hrq) hwho
  · refine ⟨n.who, d, hne, ⟨n, ?_, rfl, hnx⟩, hsequence⟩
    have hplace := moveAt_length (later ++ m :: mid₁) n (mid₂ ++ r :: earlier)
    simpa using hplace

/-- The keys that entries are held under. -/
def heldKeys (m : MemoryStore) : Finset DedupKey :=
  (m.entries.map fun e => e.event.dedupKey).toFinset

/-- The keys of the events that no entry is held under. -/
def newKeys [Fintype ι] (m : MemoryStore) (event : ι → Event) : Finset DedupKey :=
  (Finset.univ.image fun i => (event i).dedupKey) \ heldKeys m

theorem mem_heldKeys {m : MemoryStore} {key : DedupKey} :
    key ∈ heldKeys m ↔ ∃ e ∈ held m, e.event.dedupKey = key := by
  rw [heldKeys, List.mem_toFinset, List.mem_map]
  rfl

/-- There are as many keys as entries. -/
theorem card_heldKeys {m : MemoryStore} (hm : m.Indexed) :
    (heldKeys m).card = m.entries.length := by
  have hnodup : (m.entries.map fun e => e.event.dedupKey).Nodup :=
    List.pairwise_map.mpr hm.keys
  rw [heldKeys, List.toFinset_card_of_nodup hnodup, List.length_map]

/-- What a sufficient budget brings about, whoever has been answered so far. -/
structure Suffices [Fintype ι] (m₀ : MemoryStore) (event : ι → Event)
    (h : List (Move ledger ι MemoryStore))
    (Q : Pool ledger ι MemoryStore (Except AuditError Outcome)) : Prop where
  /-- A writer is still at work, or it has ended well. -/
  ended : ∀ i, (∃ r next, Q.program i = .ask r next) ∨ ∃ outcome, Q.program i = .done (.ok outcome)
  /-- The inserts whose sequence a writer finds taken are lost to commits of others, each to one of
  its own. -/
  charged : ∀ i, ∃ charge : ℕ → ℕ,
    (∀ k e, MadeAt h i k ⟨.insert e, .error (.uniqueViolation .sequence)⟩ →
      LostTo h i e k (charge k)) ∧
    ∀ k k' e e', MadeAt h i k ⟨.insert e, .error (.uniqueViolation .sequence)⟩ →
      MadeAt h i k' ⟨.insert e', .error (.uniqueViolation .sequence)⟩ →
      charge k = charge k' → k = k'
  /-- Once all writers have ended, there is an entry more for each new key. -/
  growth : (∀ i, ∃ result, Q.program i = .done result) →
    Q.state.entries.length = m₀.entries.length + (newKeys m₀ event).card

/-- Behind the last entry there is room for so many more. -/
theorem exists_bound {m : MemoryStore} {count : ℕ} (hcount : count ≤ 18446744073709551616)
    (hroom : ∀ t ∈ m.tail, t.sequence.toNat + count < 18446744073709551616) :
    ∃ bound, (∀ d ∈ held m, d.sequence.toNat < bound) ∧ bound + count ≤ 18446744073709551616 := by
  show ∃ bound, (∀ d ∈ m.entries, _) ∧ _
  have hasc := m.ascending
  rw [MemoryStore.tail] at hroom
  rcases List.eq_nil_or_concat m.entries with hnil | ⟨init, last, hlast⟩
  · rw [hnil]
    exact ⟨0, fun d hd => absurd hd List.not_mem_nil, by omega⟩
  · rw [hlast, List.concat_eq_append] at hasc hroom ⊢
    rw [List.getLast?_concat] at hroom
    have hlt := hroom last.tail rfl
    refine ⟨last.sequence.toNat + 1, ?_, ?_⟩
    · intro d hd
      rcases List.mem_append.mp hd with hd | hd
      · have hbelow := UInt64.lt_iff_toNat_lt.mp (hasc.split.1 d hd)
        omega
      · rw [List.mem_singleton.mp hd]
        omega
    · have htail : last.tail.sequence.toNat = last.sequence.toNat := rfl
      omega

/-- Where the budget covers all writers and there is room for them, nobody fails. -/
theorem Run.ended [Fintype ι] {bound : ℕ} (hm₀ : m₀.Indexed)
    (hbound : ∀ d ∈ held m₀, d.sequence.toNat < bound)
    (hroom : bound + Fintype.card ι ≤ 18446744073709551616)
    (hbudget : ∀ i, Fintype.card ι ≤ (policy i).maxAttempts.toNat)
    (hrun : Run Attends (writers m₀ policy event) h Q) (i : ι) :
    (∃ r next, Q.program i = .ask r next) ∨ ∃ outcome, Q.program i = .done (.ok outcome) := by
  have hspends := hrun.caught.obeys (fun i => submit_spends (policy i) (event i)) i
  have hends := hrun.obeys (fun i => submit_obeys (policy i) (event i)) i
  have hspends : ((Q.program i).caught).Obeys MaySpend (EndsSpent (policy i)) (transcript i h) :=
    hspends
  cases hprogram : Q.program i with
  | ask r next => exact .inl ⟨r, next, rfl⟩
  | crash why =>
    rw [hprogram] at hspends
    exact absurd hspends (hrun.not_overflown hm₀ hbound hroom i)
  | done result =>
    rw [hprogram] at hspends hends
    cases result with
    | ok outcome => exact .inr ⟨outcome, rfl⟩
    | error err =>
      -- it was neither cancelled nor failed, so it has lost more often than it can
      have hnone : NoneDone (transcript i h) := hends
      rcases hspends with ⟨x, hx, hexcuse⟩ | hspent
      · obtain ⟨m, hm, rfl, rfl⟩ := mem_transcript.mp hx
        have hans := hrun.answered m hm
        rcases hexcuse with hstop | ⟨err, hfault, hother⟩
        · exact absurd hstop hans.not_isStop
        · have hvalid := (hrun.account_of_attends hm₀).wasValid m hm
          obtain ⟨-, c, -, -, rfl⟩ := hans.fault hvalid hfault
          exact absurd rfl (hother c)
      · have hlost := hrun.losses_le_commits hm₀ i
        have htaken := hrun.taken_le_one hm₀ i
        have hfew := hrun.commits_lt hnone
        have hattempts : max (policy i).maxAttempts.toNat 1 ≤ spent (policy i) (transcript i h) :=
          hspent
        have hpolicy : (policy i).attempts = max (policy i).maxAttempts.toNat 1 := rfl
        have hcovers := hbudget i
        rw [spent] at hattempts
        omega

/-- Once all writers have ended well, there is an entry more for each new key. -/
theorem Run.growth [Fintype ι] (hm₀ : m₀.Indexed)
    (hrun : Run Attends (writers m₀ policy event) h Q)
    (hdone : ∀ i, ∃ outcome, Q.program i = .done (.ok outcome)) :
    Q.state.entries.length = m₀.entries.length + (newKeys m₀ event).card := by
  have acc := hrun.account_of_attends hm₀
  have hattend := hrun.mono fun _ _ _ => Attends.unreliable
  have happends : ∀ i, Appends (fun event' => ∃ i, event' = event i)
      ((writers m₀ policy event).program i) [] :=
    fun i => submit_appends ⟨i, rfl⟩ (policy i) []
  have hkeys : heldKeys Q.state = heldKeys m₀ ∪ newKeys m₀ event := by
    ext key
    rw [newKeys, Finset.union_sdiff_self_eq_union, Finset.mem_union, Finset.mem_image, mem_heldKeys,
      mem_heldKeys]
    constructor
    · rintro ⟨e, he, rfl⟩
      rcases (hattend.brought hm₀ happends).2 e he with h0 | ⟨i, hi⟩
      · exact .inl ⟨e, h0, rfl⟩
      · exact .inr ⟨i, Finset.mem_univ i, by rw [hi]⟩
    · rintro (⟨e, he, rfl⟩ | ⟨i, -, rfl⟩)
      · exact ⟨e, acc.initial he, rfl⟩
      · obtain ⟨outcome, houtcome⟩ := hdone i
        have htold := Pool.told_eq_some_iff.mpr houtcome
        exact ⟨outcome.entry, hattend.held_of_told hm₀ htold⟩
  rw [← card_heldKeys acc.valid, ← card_heldKeys hm₀, hkeys, newKeys,
    Finset.card_union_of_disjoint Finset.disjoint_sdiff]

/-- **A budget for as many attempts as there are writers suffices.**  Writers with any events share
a store in memory with whatever inserts have left there; no call fails but by a constraint, nobody
cancels, and there is room for an entry more of each writer.  Then in whatever order they are
answered, none of them fails, each sequence that one of them loses was committed by another between
its tail and its insert, and in the end each new key has brought one entry. -/
theorem budget_suffices [Fintype ι] (hm₀ : m₀.Indexed)
    (hroom : ∀ t ∈ m₀.tail, t.sequence.toNat + Fintype.card ι < 18446744073709551616)
    (hbudget : ∀ i, Fintype.card ι ≤ (policy i).maxAttempts.toNat)
    (hrun : Run Attends (writers m₀ policy event) h Q) : Suffices m₀ event h Q := by
  have hcount : Fintype.card ι ≤ 18446744073709551616 := by
    rcases isEmpty_or_nonempty ι with hempty | ⟨⟨i⟩⟩
    · rw [Fintype.card_eq_zero]
      exact Nat.zero_le _
    · have hcovers := hbudget i
      have hlt := (policy i).maxAttempts.toNat_lt
      omega
  obtain ⟨bound, hbound, hfits⟩ := exists_bound hcount hroom
  have hended := hrun.ended hm₀ hbound hfits hbudget
  refine ⟨hended, ?_, ?_⟩
  · intro i
    have hlost : ∀ k, ∃ c, ∀ e, MadeAt h i k ⟨.insert e, .error (.uniqueViolation .sequence)⟩ →
        LostTo h i e k c := by
      intro k
      by_cases hmade : ∃ e, MadeAt h i k ⟨.insert e, .error (.uniqueViolation .sequence)⟩
      · obtain ⟨e, he⟩ := hmade
        obtain ⟨c, hc⟩ := hrun.lostTo hm₀ he
        refine ⟨c, fun e' he' => ?_⟩
        obtain rfl : e = e' := by simpa using he.unique he'
        exact hc
      · exact ⟨0, fun e he => absurd ⟨e, he⟩ hmade⟩
    choose charge hcharge using hlost
    refine ⟨charge, hcharge, ?_⟩
    intro k k' e e' hk hk' heq
    have hlost := hcharge k e hk
    have hlost' := hcharge k' e' hk'
    rw [← heq] at hlost'
    exact Nat.le_antisymm (Nat.le_of_not_lt (hlost'.not_lt hlost hk'))
      (Nat.le_of_not_lt (hlost.not_lt hlost' hk))
  · intro hdone
    refine hrun.growth hm₀ fun i => ?_
    obtain ⟨result, hresult⟩ := hdone i
    rcases hended i with ⟨r, next, hask⟩ | hok
    · rw [hask] at hresult
      cases hresult
    · exact hok

end Budget

/-- A store whose sequences have a gap. -/
def sparse : MemoryStore :=
  .ofEntries [.sealed 0 (.bare "old" "1") genesisHash, .sealed 5 (.bare "new" "1") genesisHash]

/-- Two writers with an event each, and an attempt for each of them. -/
def rivals : Pool ledger Bool MemoryStore (Except AuditError Outcome) :=
  writers sparse (fun _ => { maxAttempts := 2 }) fun b =>
    .bare (if b then "first" else "second") "1"

/-- Both read the same tail; one of them makes its insert, the other loses its own and starts
over. -/
def rivalTurns : List (Bool × Answer) :=
  List.replicate 4 (false, .serve false) ++ List.replicate 6 (true, .serve false) ++
    List.replicate 9 (false, .serve false)

theorem budget_suffices_rivals :
    let h := (rivals.play rivalTurns).1
    let Q := (rivals.play rivalTurns).2
    sparse.Indexed ∧ sparse.tail.map ChainTail.sequence = some 5 ∧
      (∀ t ∈ sparse.tail, t.sequence.toNat + Fintype.card Bool < 18446744073709551616) ∧
      losses .sequence (transcript false h) = 1 ∧
      (Q.told false).map (fun o => o.entry.sequence) = some 7 ∧
      (Q.told true).map (fun o => o.entry.sequence) = some 6 ∧
      Suffices sparse (fun b => .bare (if b then "first" else "second") "1") h Q := by
  have hindexed : sparse.Indexed := by
    refine MemoryStore.indexed_ofEntries ?_ ?_
    · unfold Ascending
      decide +kernel
    · decide +kernel
  have htail : sparse.tail.map ChainTail.sequence = some 5 := by decide +kernel
  have hroom : ∀ t ∈ sparse.tail, t.sequence.toNat + Fintype.card Bool < 18446744073709551616 := by
    intro t ht
    rw [Option.mem_def.mp ht] at htail
    rw [Option.some.inj htail, Fintype.card_bool]
    decide
  have hserve : ∀ turn ∈ rivalTurns, turn.2 = .serve false := by decide
  have hrun : Run Attends rivals (rivals.play rivalTurns).1 (rivals.play rivalTurns).2 := by
    refine rivals.run_play_of rivalTurns fun turn hturn r s => ?_
    rw [hserve turn hturn]
    rfl
  refine ⟨hindexed, htail, hroom, by decide +kernel, by decide +kernel, by decide +kernel, ?_⟩
  exact budget_suffices hindexed hroom (fun _ => by decide) hrun

end AuditChain
