import AuditChain.Proofs.Encoding
import AuditChain.Proofs.Store.Memory
import AuditChain.Proofs.Verify.Exact

/-!
# Where a replaced entry shows

Somebody has put another entry in the place of one of a chain.  Verification then tells how: an
entry that names another hash than the one before it breaks the link to that one; one that names the
right hash but does not carry its own is a mismatch; and one that carries its own hash carries
another than the one it came for, so that it is its successor that no longer links to it.  Only at
the end of the chain, where there is no successor, does such an entry pass.

The last case is where the hash function is relied on: for the entry to carry the hash of the one it
came for, the inputs of the two must collide.

An entry that is shown as the one it came for is as good as that one: nothing is found of it.

## Main definitions

* `Finds` — what a verification from the start of a chain finds, whatever the size of the batches.

## Main results

* `hash_ne_of_replaced` — an entry with its own hash does not carry the hash of another.
* `verifyEntries_of_offence`, `verifyEntries_of_resealed` — a single pass over the altered chain.
* `finds_brokenLink`, `finds_hashMismatch`, `finds_before` — what is found at the altered entry, and
  before it.
* `finds_shown` — an entry that is shown alike is not found.
* `tampering_classified` — **what verification finds of one replaced entry.**
* `tampering_stray` — one that is not found.
-/

namespace AuditChain.Verify

/-! ### An entry in the place of another -/

section Replaced

variable {before after : List Entry} {original e : Entry}

/-- The entry at a place of a chain names the hash that has to be named there. -/
theorem linkAfter_before (h : IsSlice 0 (before ++ original :: after)) :
    linkAfter 0 before = some original.previousHash := by
  have happend : before ++ original :: after = before ++ [original] ++ after := by simp
  rw [happend] at h
  have hlink := h.of_append.continues_of_concat.link
  -- from zero on there is always a hash to be named, if only that of the genesis
  obtain ⟨p, hp⟩ : ∃ p, linkAfter 0 before = some p := by
    unfold linkAfter
    split
    · exact ⟨_, rfl⟩
    · exact ⟨genesisHash, rfl⟩
  rw [hp, hlink p hp]

/-- The sequence of the entry at a place is the number of those before it. -/
theorem sequence_eq_length (h : IsSlice 0 (before ++ original :: after)) :
    original.sequence.toNat = before.length := by
  have hsequence := h.sequence before.length (by simp)
  rw [Nat.zero_add] at hsequence
  simpa using hsequence

/-- What can come at the place of an entry: what names the same hash and carries its own. -/
theorem continues_replaced_iff (h : IsSlice 0 (before ++ original :: after))
    (hsequence : e.sequence = original.sequence) : Continues 0 before e ↔
      e.previousHash = original.previousHash ∧ e.hash = e.recompute := by
  have hlink := linkAfter_before h
  constructor
  · intro he
    exact ⟨he.link _ hlink, he.hash⟩
  · rintro ⟨hprevious, hhash⟩
    refine ⟨?_, ?_, hhash⟩
    · rw [hsequence, sequence_eq_length h, Nat.zero_add]
    · intro p hp
      rw [hlink] at hp
      rw [hprevious]
      exact Option.some.inj hp

/-- Why an entry cannot come at the place of another: for its link, or else for its hash. -/
theorem offence_replaced (h : IsSlice 0 (before ++ original :: after))
    (hsequence : e.sequence = original.sequence) : offence 0 before e =
      if e.previousHash ≠ original.previousHash then .brokenLink e.sequence
      else .hashMismatch e.sequence := by
  have hplace : e.sequence.toNat = 0 + before.length := by
    rw [hsequence, sequence_eq_length h, Nat.zero_add]
  rw [offence, if_neg (not_not_intro hplace), linkAfter_before h]
  simp

/-- **An entry that carries its own hash does not carry the hash of another** that is shown
differently, unless the inputs of the two collide. -/
theorem hash_ne_of_replaced (hne : e.shown ≠ original.shown) (hfits : e.event.Fits)
    (hfits' : original.event.Fits) (hsafe : ¬Collides e.hashInput original.hashInput)
    (horiginal : original.hash = original.recompute) (hhash : e.hash = e.recompute) :
    e.hash ≠ original.hash := by
  intro heq
  rcases Entry.shown_eq_or_collides hfits hfits' hhash horiginal heq with hshown | hcollides
  · exact hne hshown
  · exact hsafe hcollides

/-! ### A single pass over the altered chain -/

theorem ascending_replaced (h : IsSlice 0 (before ++ original :: after))
    (hsequence : e.sequence = original.sequence) :
    Ascending Entry.sequence (before ++ e :: after) := by
  have hasc := h.ascending
  rw [Ascending, ← List.pairwise_map] at hasc ⊢
  simpa [hsequence] using hasc

/-- An entry that cannot come at the place of another ends the pass there. -/
theorem verifyEntries_of_offence (last : UInt64) (h : IsSlice 0 (before ++ original :: after))
    (hsequence : e.sequence = original.sequence) (he : ¬Continues 0 before e) :
    verifyEntries 0 last (before ++ e :: after) =
      ⟨0, last, before.length, before.getLast?.map Entry.sequence,
        .violated (offence 0 before e)⟩ :=
  verifyEntries_of_not_continues 0 last h.of_append (ascending_replaced h hsequence).split.1 he
    after

/-- An entry that was sealed again passes, and the one after it, if there is one, does not link to
it. -/
theorem verifyEntries_of_resealed (last : UInt64) (h : IsSlice 0 (before ++ original :: after))
    (hsequence : e.sequence = original.sequence) (he : Continues 0 before e)
    (hhash : e.hash ≠ original.hash) : verifyEntries 0 last (before ++ e :: after) =
      ⟨0, last, before.length + 1, some e.sequence,
        match after.head? with
        | some d => .violated (.brokenLink d.sequence)
        | none => .intact⟩ := by
  have hpassed : IsSlice 0 (before ++ [e]) := h.of_append.concat he
  have hasc := ascending_replaced h hsequence
  cases after with
  | nil =>
    rw [verifyEntries_of_isSlice 0 last hpassed]
    simp
  | cons d after =>
    have happend : before ++ original :: d :: after = before ++ [original] ++ d :: after := by simp
    have happend' : before ++ e :: d :: after = before ++ [e] ++ d :: after := by simp
    rw [happend] at h
    rw [happend'] at hasc ⊢
    have hlink : linkAfter 0 (before ++ [e]) = some e.hash := linkAfter_concat 0 before e
    have hprevious : d.previousHash ≠ e.hash := by
      have horiginal := linkAfter_before h
      rw [linkAfter_concat] at horiginal
      rw [← Option.some.inj horiginal]
      exact hhash.symm
    have hd : ¬Continues 0 (before ++ [e]) d := fun hd => hprevious (hd.link _ hlink)
    have hplace : d.sequence.toNat = 0 + (before ++ [e]).length := by
      have hlength := sequence_eq_length h
      rw [List.length_append] at hlength ⊢
      rw [Nat.zero_add]
      exact hlength
    have hbroken : ∃ p ∈ linkAfter 0 (before ++ [e]), d.previousHash ≠ p := ⟨_, hlink, hprevious⟩
    have hoffence : offence 0 (before ++ [e]) d = .brokenLink d.sequence := by
      rw [offence, if_neg (not_not_intro hplace), if_pos hbroken]
    rw [verifyEntries_of_not_continues 0 last hpassed hasc.split.1 hd after]
    simp [hoffence]

end Replaced

/-! ### The store in memory -/

/-- A verification from the start up to a sequence finds this once so many entries have passed,
whatever the size of the batches. -/
def Finds (m : MemoryStore) (last checked : Nat) (finding : Finding) : Prop :=
  ∀ (batch : UInt64) (cancelled : Bool), ∃ r,
    (verify batch 0 (UInt64.ofNat last)).run (Store.respond cancelled) m = (.ok (.ok r), m) ∧
      r.first = 0 ∧ r.last = UInt64.ofNat last ∧ r.entriesChecked = checked ∧ r.finding = finding

/-- What is found is what a single pass over the range finds. -/
theorem finds_of_pass {m : MemoryStore} {last checked : Nat} {finding : Finding}
    (lastVerified : Option UInt64) (h : verifyEntries 0 (UInt64.ofNat last)
      (within Entry.sequence 0 (UInt64.ofNat last) m.entries) =
        ⟨0, UInt64.ofNat last, checked, lastVerified, finding⟩) : Finds m last checked finding := by
  intro batch cancelled
  refine ⟨_, verify_memory m batch UInt64.zero_le cancelled, ?_⟩
  rw [h]
  exact ⟨rfl, rfl, rfl, rfl⟩

section Replaced

variable {before after : List Entry} {original e : Entry}

/-- The entries of a chain lie in the range that ends at the last of them. -/
theorem sequence_le_last (h : IsSlice 0 (before ++ original :: after)) {d : Entry}
    (hd : d ∈ before ++ original :: after) :
    d.sequence ≤ UInt64.ofNat (before.length + after.length) := by
  have hlast : (UInt64.ofNat (before.length + after.length)).toNat =
      before.length + after.length := by
    refine UInt64.toNat_ofNat_of_lt' ?_
    rw [← Nat.zero_add (before.length + after.length)]
    have hlength : before.length + after.length < (before ++ original :: after).length := by simp
    rw [← h.sequence _ hlength]
    exact UInt64.toNat_lt _
  obtain ⟨hlt, -⟩ := h.getElem_of_mem hd
  rw [List.length_append, List.length_cons] at hlt
  rw [UInt64.le_iff_toNat_le, hlast]
  omega

/-- The altered chain lies in the range that the chain took. -/
theorem within_replaced (h : IsSlice 0 (before ++ original :: after))
    (hsequence : e.sequence = original.sequence) :
    within Entry.sequence 0 (UInt64.ofNat (before.length + after.length)) (before ++ e :: after) =
      before ++ e :: after := by
  refine within_eq_self fun d hd => ⟨UInt64.zero_le, ?_⟩
  -- the sequences are those of the chain, and these are the places in it
  have hmem : d.sequence ∈ (before ++ original :: after).map Entry.sequence := by
    have := List.mem_map_of_mem (f := Entry.sequence) hd
    simpa [hsequence] using this
  obtain ⟨d', hd', heq⟩ := List.mem_map.mp hmem
  rw [← heq]
  exact sequence_le_last h hd'

/-- What a pass over the altered chain finds is found of a store that was loaded with it. -/
theorem finds_replaced (h : IsSlice 0 (before ++ original :: after))
    (hsequence : e.sequence = original.sequence) {checked : Nat} {lastVerified : Option UInt64}
    {finding : Finding} (hpass : ∀ last, verifyEntries 0 last (before ++ e :: after) =
      ⟨0, last, checked, lastVerified, finding⟩) :
    Finds (.ofEntries (before ++ e :: after)) (before.length + after.length) checked finding := by
  refine finds_of_pass lastVerified ?_
  rw [MemoryStore.entries_ofEntries (ascending_replaced h hsequence), within_replaced h hsequence]
  exact hpass _

/-- An entry that breaks the link to the one before it is found. -/
theorem finds_brokenLink (h : IsSlice 0 (before ++ original :: after))
    (hsequence : e.sequence = original.sequence)
    (hprevious : e.previousHash ≠ original.previousHash) :
    Finds (.ofEntries (before ++ e :: after)) (before.length + after.length) before.length
      (.violated (.brokenLink e.sequence)) := by
  have hoffence := offence_replaced h hsequence
  rw [if_pos hprevious] at hoffence
  rw [← hoffence]
  exact finds_replaced h hsequence fun last => verifyEntries_of_offence last h hsequence
    fun he => hprevious ((continues_replaced_iff h hsequence).mp he).1

/-- An entry that links to the one before it and does not carry its own hash is found. -/
theorem finds_hashMismatch (h : IsSlice 0 (before ++ original :: after))
    (hsequence : e.sequence = original.sequence)
    (hprevious : e.previousHash = original.previousHash) (hhash : e.hash ≠ e.recompute) :
    Finds (.ofEntries (before ++ e :: after)) (before.length + after.length) before.length
      (.violated (.hashMismatch e.sequence)) := by
  have hoffence := offence_replaced h hsequence
  rw [if_neg (not_not_intro hprevious)] at hoffence
  rw [← hoffence]
  exact finds_replaced h hsequence fun last => verifyEntries_of_offence last h hsequence
    fun he => hhash ((continues_replaced_iff h hsequence).mp he).2

/-- An entry that is shown as the one it came for is not found. -/
theorem finds_shown (h : IsSlice 0 (before ++ original :: after))
    (hshown : e.shown = original.shown) :
    Finds (.ofEntries (before ++ e :: after)) (before.length + after.length)
      (before.length + after.length + 1) .intact := by
  have hsequence : e.sequence = original.sequence := (Entry.shown_eq_iff.mp hshown).1
  have hlength : (before ++ original :: after).length = before.length + after.length + 1 := by
    rw [List.length_append, List.length_cons, Nat.add_assoc]
  have hpass : ∀ last, verifyEntries 0 last (before ++ e :: after) =
      verifyEntries 0 last (before ++ original :: after) := by
    intro last
    rw [← verifyEntries_map_shown, List.map_append, List.map_cons, hshown, ← List.map_cons,
      ← List.map_append, verifyEntries_map_shown]
  rw [← hlength]
  exact finds_replaced h hsequence fun last => (hpass last).trans (verifyEntries_of_isSlice 0 last h)

/-- What comes before the altered place is intact. -/
theorem finds_before (h : IsSlice 0 (before ++ original :: after))
    (hsequence : e.sequence = original.sequence) (hne : 0 < before.length) :
    Finds (.ofEntries (before ++ e :: after)) (before.length - 1) before.length .intact := by
  have hasc := ascending_replaced h hsequence
  have hplace : e.sequence.toNat = before.length := by rw [hsequence, sequence_eq_length h]
  have hpositive : 0 < e.sequence := by
    rw [UInt64.lt_iff_toNat_lt, hplace]
    exact hne
  have hpred : UInt64.ofNat (before.length - 1) = e.sequence - 1 := by
    rw [← UInt64.toNat_inj, toNat_pred_of_lt hpositive, hplace]
    refine UInt64.toNat_ofNat_of_lt' (Nat.lt_of_le_of_lt (Nat.sub_le _ 1) ?_)
    rw [← hplace]
    exact UInt64.toNat_lt _
  have hwindow := within_before hasc (within_replaced h hsequence) hpositive
  refine finds_of_pass (before.getLast?.map Entry.sequence) ?_
  rw [MemoryStore.entries_ofEntries hasc, hpred, hwindow]
  exact verifyEntries_of_isSlice 0 _ h.of_append

end Replaced

/-- A list taken apart at a place, and what becomes of it where the place is taken by another. -/
theorem exists_split {α : Type} {xs : List α} {k : Nat} (hk : k < xs.length) (x : α) :
    ∃ before after, xs = before ++ xs[k] :: after ∧ xs.set k x = before ++ x :: after ∧
      k = before.length := by
  refine ⟨xs.take k, xs.drop (k + 1), ?_, ?_, ?_⟩
  · rw [← List.drop_eq_getElem_cons hk, List.take_append_drop]
  · rw [List.set_eq_take_append_cons_drop, if_pos hk]
  · rw [List.length_take]
    omega

/-- **What verification finds of one replaced entry.**  Let an entry of a chain be replaced by one with
its sequence, and let their inputs not collide.  If the two are shown alike, the chain is found intact.
Otherwise, of the whole chain is found

* a broken link at the entry, if it names another hash than the one it came for;
* else a hash mismatch at it, if it does not carry its own hash, as it cannot if the hash was kept;
* else a broken link at its successor, or nothing if it has none;

and what comes before the entry is intact.  Only an entry whose instant is in a leap second off the
minute is shown as another one is. -/
theorem tampering_classified {C : List Entry} (hC : IsSlice 0 C) {k : Nat} (hk : k < C.length)
    {e : Entry} (hsequence : e.sequence.toNat = k) (hfits : e.event.Fits)
    (hfits' : C[k].event.Fits) (hsafe : ¬Collides e.hashInput C[k].hashInput) :
    let m := MemoryStore.ofEntries (C.set k e)
    let last := C.length - 1
    ((e.event.occurredAt.OffMinute ↔ C[k].event.occurredAt.OffMinute) →
      (e.shown = C[k].shown ↔ e = C[k])) ∧
    (e.shown = C[k].shown → Finds m last C.length .intact) ∧
    (e.shown ≠ C[k].shown →
      (e.previousHash ≠ C[k].previousHash →
        Finds m last k (.violated (.brokenLink (UInt64.ofNat k)))) ∧
      (e.previousHash = C[k].previousHash →
        (e.hash ≠ e.recompute → Finds m last k (.violated (.hashMismatch (UInt64.ofNat k)))) ∧
        (e.hash = C[k].hash → Finds m last k (.violated (.hashMismatch (UInt64.ofNat k)))) ∧
        (e.hash = e.recompute →
          (k + 1 < C.length →
            Finds m last (k + 1) (.violated (.brokenLink (UInt64.ofNat (k + 1))))) ∧
          (k + 1 = C.length → Finds m last (k + 1) .intact))) ∧
      (1 ≤ k → Finds m (k - 1) k .intact)) := by
  obtain ⟨before, after, hsplit, hset, hlength⟩ := exists_split hk e
  rw [hset]
  have horiginal := hC.hash C[k] (List.getElem_mem hk)
  generalize C[k] = original at *
  subst hsplit hlength
  have heq : e.sequence = original.sequence := by
    rw [← UInt64.toNat_inj, hsequence, sequence_eq_length hC]
  have hplace : UInt64.ofNat before.length = e.sequence := by rw [← hsequence, UInt64.ofNat_toNat]
  have hlast : (before ++ original :: after).length - 1 = before.length + after.length := by simp
  have hcount : (before ++ original :: after).length = before.length + after.length + 1 := by
    rw [List.length_append, List.length_cons, Nat.add_assoc]
  rw [hlast, hplace, hcount]
  refine ⟨fun hoff => ⟨fun hshown => Entry.eq_of_shown_eq hshown hoff, congrArg Entry.shown⟩,
    finds_shown hC, fun hne => ⟨finds_brokenLink hC heq, ?_, finds_before hC heq⟩⟩
  -- if it carries its own hash, that is not the one it came for
  have hfresh := hash_ne_of_replaced hne hfits hfits' hsafe horiginal
  intro hprevious
  have hmismatch := finds_hashMismatch hC heq hprevious
  refine ⟨hmismatch, fun hkept => hmismatch fun hhash => hfresh hhash hkept, ?_⟩
  intro hhash
  have hpasses := (continues_replaced_iff hC heq).mpr ⟨hprevious, hhash⟩
  have hfinds := finds_replaced hC heq fun last =>
    verifyEntries_of_resealed last hC heq hpasses (hfresh hhash)
  cases after with
  | nil => exact ⟨fun hlt => absurd hlt (by simp), fun _ => hfinds⟩
  | cons d after =>
    refine ⟨fun _ => ?_, fun hend => absurd hend (by simp)⟩
    have hd : UInt64.ofNat (before.length + 1) = d.sequence := by
      have happend : before ++ original :: d :: after = before ++ [original] ++ d :: after := by
        simp
      rw [happend] at hC
      rw [← UInt64.ofNat_toNat (x := d.sequence), sequence_eq_length hC, List.length_append,
        List.length_singleton]
    rw [hd]
    exact hfinds

/-- A ledger of two events. -/
def twoSealed : List Entry :=
  chainOf [.bare "first" "1", .bare "second" "2"]

/-- The first of its entries, or what somebody makes of it. -/
def firstSealed (entityId : String) : Entry :=
  .sealed 0 (.bare "first" entityId) genesisHash

theorem tampering_classified_resealed : IsSlice 0 twoSealed ∧ ∃ hk : 0 < twoSealed.length,
    (firstSealed "one").sequence.toNat = 0 ∧ firstSealed "one" ≠ twoSealed[0] ∧
      (firstSealed "one").event.Fits ∧ twoSealed[0].event.Fits ∧
      ¬Collides (firstSealed "one").hashInput twoSealed[0].hashInput ∧
      Finds (.ofEntries (twoSealed.set 0 (firstSealed "one"))) 1 1 (.violated (.brokenLink 1)) := by
  have hC : IsSlice 0 twoSealed := (isChain_chainOf (by decide) (by decide)).toIsSlice
  have hk : 0 < twoSealed.length := Nat.zero_lt_succ 1
  have hevent : (firstSealed "one").event ≠ (firstSealed "1").event := by decide +kernel
  have hne : firstSealed "one" ≠ twoSealed[0] := fun heq => hevent (congrArg Entry.event heq)
  have hfits : (firstSealed "one").event.Fits := by decide +kernel
  have hfits' : (firstSealed "1").event.Fits := by decide +kernel
  have hsafe : ¬Collides (firstSealed "one").hashInput (firstSealed "1").hashInput := by
    have hdigest : Sha256.digest (firstSealed "one").hashInput ≠
        Sha256.digest (firstSealed "1").hashInput := by decide +kernel
    exact fun hcollides => hdigest hcollides.2
  obtain ⟨hsame, -, hfound⟩ :=
    @tampering_classified _ hC 0 hk (firstSealed "one") rfl hfits hfits' hsafe
  have hshown : (firstSealed "one").shown ≠ twoSealed[0].shown :=
    fun heq => hne ((hsame .rfl).mp heq)
  exact ⟨hC, hk, rfl, hne, hfits, hfits', hsafe,
    (((hfound hshown).2.1 rfl).2.2 rfl).1 (Nat.lt_succ_self 1)⟩

/-- A ledger of two events, the first of which happened in a leap second off the minute. -/
def straySealed : List Entry :=
  chainOf [.bare "first" "1" .stray, .bare "second" "2"]

/-- An entry of which nothing is found: another one than it came for, with its own hash, which it
carries. -/
theorem tampering_stray : IsSlice 0 straySealed ∧ ∃ hk : 0 < straySealed.length,
    let e := straySealed[0].shown
    e ≠ straySealed[0] ∧ e.sequence.toNat = 0 ∧ e.event.Fits ∧ straySealed[0].event.Fits ∧
      ¬Collides e.hashInput straySealed[0].hashInput ∧ e.hash = e.recompute ∧
      Finds (.ofEntries (straySealed.set 0 e)) 1 2 .intact := by
  have hC : IsSlice 0 straySealed := (isChain_chainOf (by decide) (by decide)).toIsSlice
  have hk : 0 < straySealed.length := Nat.zero_lt_succ 1
  have hoff : straySealed[0].event.occurredAt.OffMinute := by
    show Timestamp.stray.OffMinute
    decide
  have hfits : (Event.bare "first" "1" .stray).Fits := by decide +kernel
  have hfits' : (Event.bare "first" "1" .stray).shown.Fits := by decide +kernel
  refine ⟨hC, hk, fun hsame => Entry.shown_eq_self_iff.mp hsame hoff, rfl, hfits', hfits, ?_, ?_, ?_⟩
  · rw [Entry.hashInput_shown]
    exact fun hcollides => hcollides.1 rfl
  · rw [Entry.recompute_shown]
    rfl
  · exact @finds_shown [] [straySealed[1]] straySealed[0] _ hC straySealed[0].shown_shown

end AuditChain.Verify
