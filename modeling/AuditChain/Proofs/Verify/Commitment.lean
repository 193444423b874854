import AuditChain.Proofs.Chain
import AuditChain.Proofs.Encoding
import AuditChain.Proofs.Verify.SinglePass
import Mathlib.Data.List.Chain
import Mathlib.Data.List.Induction

/-!
# The terminal hash commits to the whole slice

A walk that meets no violation leaves three facts behind: how the list begins, how each entry
follows the one before it, and that every hash is the one its fields call for.  The last two make
the hash of the last entry stand for the whole list.  Two lists that end in one hash end in one
entry; that entry names the hash of the one before it, in either list; and so on, backwards, until
one list has come to its start.  It stands for what is shown of the list, and no more: a hash does not
tell a leap second off the minute from the second that comes next.

## Main definitions

* `Follows` — an entry comes right after another.
* `Accepted` — what a list is like that a cursor lets pass.
* `SomeCollide` — two of these inputs of the hash function differ and have one digest.
* `Agree` — two lists are the same as far back as both reach.

## Main results

* `Walk.feed_eq_ok_iff` — a walk meets no violation just if its cursor lets the list pass.
* `suffix_or_collide` — lists that end in one hash have the shorter one in common, as it is shown.
* `terminal_hash_commits` — **the terminal hash commits to the whole slice**, as it is shown.
* `terminal_hash_stray` — it does not commit to more.
-/

namespace AuditChain.Verify

/-! ### What a walk without violation leaves behind -/

/-- An entry comes right after another. -/
def Follows (d e : Entry) : Prop :=
  e.sequence = Cursor.following d.sequence ∧ e.previousHash = d.hash

/-- What a list is like that a cursor lets pass, whatever the order of its sequences. -/
structure Accepted (c : Cursor) (es : List Entry) : Prop where
  /-- The first entry is the one that the cursor waits for. -/
  first : ∀ e ∈ es.head?, e.sequence = c.next ∧ ∀ p ∈ c.expected, e.previousHash = p
  /-- Every later entry follows the one before it. -/
  linked : es.IsChain Follows
  /-- Every hash is the one that the fields call for. -/
  hash : ∀ e ∈ es, e.hash = e.recompute

/-- The cursor after an entry has passed. -/
def Cursor.after (e : Entry) : Cursor :=
  ⟨following e.sequence, some e.hash⟩

theorem Cursor.check_eq_ok_iff {c c' : Cursor} {e : Entry} : c.check e = .ok c' ↔
    (e.sequence = c.next ∧ ∀ p ∈ c.expected, e.previousHash = p) ∧ e.hash = e.recompute ∧
      c' = Cursor.after e := by
  have hlink : c.expected.getD e.previousHash = e.previousHash ↔
      ∀ p ∈ c.expected, e.previousHash = p := by
    cases c.expected <;> simp [eq_comm]
  rw [← hlink, check]
  constructor
  · intro h
    split at h
    · cases h
    · rename_i hsequence
      split at h
      · cases h
      · rename_i hprevious
        split at h
        · cases h
        · rename_i hhash
          rw [not_not] at hsequence hprevious hhash
          exact ⟨⟨hsequence, hprevious⟩, hhash.symm, (Except.ok.inj h).symm⟩
  · rintro ⟨⟨hsequence, hprevious⟩, hhash, rfl⟩
    rw [if_neg (not_not_intro hsequence), if_neg (not_not_intro hprevious),
      if_neg (not_not_intro hhash.symm)]
    rfl

theorem accepted_nil (c : Cursor) : Accepted c [] where
  first := fun _ he => absurd he (by simp)
  linked := .nil
  hash := fun _ he => absurd he List.not_mem_nil

theorem accepted_cons_iff {c : Cursor} {e : Entry} {es : List Entry} : Accepted c (e :: es) ↔
    (e.sequence = c.next ∧ ∀ p ∈ c.expected, e.previousHash = p) ∧ e.hash = e.recompute ∧
      Accepted (Cursor.after e) es := by
  -- the cursor after an entry waits for what follows the entry
  have hfollows : ∀ d, (d.sequence = (Cursor.after e).next ∧
      ∀ p ∈ (Cursor.after e).expected, d.previousHash = p) ↔ Follows e d := by
    intro d
    simp [Cursor.after, Follows]
  constructor
  · intro h
    obtain ⟨hnext, hlinked⟩ := List.isChain_cons.mp h.linked
    obtain ⟨hhash, hhashes⟩ := List.forall_mem_cons.mp h.hash
    exact ⟨h.first e rfl, hhash, fun d hd => (hfollows d).mpr (hnext d hd), hlinked, hhashes⟩
  · rintro ⟨hfirst, hhash, hes⟩
    refine ⟨?_, ?_, List.forall_mem_cons.mpr ⟨hhash, hes.hash⟩⟩
    · rintro d ⟨⟩
      exact hfirst
    · exact List.isChain_cons.mpr ⟨fun d hd => (hfollows d).mp (hes.first d hd), hes.linked⟩

/-- A walk meets no violation just if its cursor lets the list pass. -/
theorem Walk.feed_eq_ok_iff {w : Walk} {es : List Entry} :
    (∃ w', w.feed es = .ok w') ↔ Accepted w.cursor es := by
  induction es generalizing w with
  | nil => exact ⟨fun _ => accepted_nil _, fun _ => ⟨w, rfl⟩⟩
  | cons e es ih =>
    rw [accepted_cons_iff, feed, step]
    cases hcheck : w.cursor.check e with
    | error v =>
      constructor
      · rintro ⟨w', hw'⟩
        cases hw'
      · rintro ⟨hfirst, hhash, -⟩
        rw [Cursor.check_eq_ok_iff.mpr ⟨hfirst, hhash, rfl⟩] at hcheck
        cases hcheck
    | ok c =>
      obtain ⟨hfirst, hhash, rfl⟩ := Cursor.check_eq_ok_iff.mp hcheck
      have hrest := @ih { w with
        cursor := Cursor.after e, checked := w.checked + 1, lastVerified := some e.sequence }
      constructor
      · intro hw'
        exact ⟨hfirst, hhash, hrest.mp hw'⟩
      · rintro ⟨-, -, hes⟩
        exact hrest.mpr hes

/-- Entries are found intact just if the cursor at the first sequence lets them pass. -/
theorem verifyEntries_intact_iff {first last : UInt64} {es : List Entry} :
    (verifyEntries first last es).finding = .intact ↔ Accepted (Cursor.startingAt first) es := by
  have hfeed := @Walk.feed_eq_ok_iff (Walk.start first last) es
  rw [verifyEntries]
  cases hw : (Walk.start first last).feed es with
  | error r =>
    constructor
    · intro hintact
      exact absurd hintact (Walk.finding_of_feed_eq_error hw)
    · intro hes
      obtain ⟨w, hw'⟩ := hfeed.mpr hes
      rw [hw] at hw'
      cases hw'
  | ok w => exact ⟨fun _ => hfeed.mp ⟨w, hw⟩, fun _ => rfl⟩

/-! ### Backwards from the last entry -/

/-- No sequence follows another and is zero. -/
theorem Cursor.following_ne_zero (sequence : UInt64) : following sequence ≠ 0 := by
  unfold following
  split
  · decide
  · rename_i hmax
    intro hzero
    have hne : sequence.toNat ≠ 18446744073709551615 := fun heq => hmax (UInt64.toNat_inj.mp heq)
    have hlt := sequence.toNat_lt
    rw [← UInt64.toNat_inj, UInt64.toNat_add, UInt64.toNat_one, UInt64.toNat_zero] at hzero
    omega

/-- Only the first of the entries that follow one another can have sequence zero. -/
theorem before_eq_nil_of_zero {before after : List Entry} {e : Entry}
    (h : (before ++ e :: after).IsChain Follows) (he : e.sequence = 0) : before = [] := by
  rcases List.eq_nil_or_concat before with rfl | ⟨init, d, rfl⟩
  · rfl
  · rw [List.concat_eq_append] at h
    have hfollows : Follows d e := (List.isChain_append.mp h).2.2 d (by simp) e rfl
    rw [hfollows.1] at he
    exact absurd he (Cursor.following_ne_zero d.sequence)

namespace Accepted

variable {c : Cursor} {xs ys : List Entry}

/-- What a list begins with is let pass as well. -/
theorem of_append (h : Accepted c (xs ++ ys)) : Accepted c xs where
  first := fun e he => h.first e (by simp [Option.mem_def.mp he])
  linked := h.linked.left_of_append
  hash := fun e he => h.hash e (List.mem_append_left ys he)

/-- The last entry follows the one before it. -/
theorem follows_of_getLast? {d e : Entry} (h : Accepted c (xs ++ [e])) (hd : d ∈ xs.getLast?) :
    Follows d e :=
  (List.isChain_append.mp h.linked).2.2 d hd e rfl

/-- A list that starts at sequence zero ends no longer list. -/
theorem eq_of_suffix (h : Accepted c ys) (hsuffix : xs <:+ ys) (hne : xs ≠ [])
    (hzero : (xs.head hne).sequence = 0) : xs = ys := by
  obtain ⟨before, rfl⟩ := hsuffix
  obtain ⟨e, es, rfl⟩ := List.exists_cons_of_ne_nil hne
  rw [before_eq_nil_of_zero h.linked hzero]
  rfl

end Accepted

/-- Two of these inputs of the hash function differ and have one digest. -/
def SomeCollide (inputs : List (List UInt8)) : Prop :=
  ∃ x ∈ inputs, ∃ y ∈ inputs, Collides x y

/-- More inputs collide as well. -/
theorem SomeCollide.mono {xs ys : List (List UInt8)} (h : SomeCollide xs) (hsub : xs ⊆ ys) :
    SomeCollide ys := by
  obtain ⟨x, hx, y, hy, hxy⟩ := h
  exact ⟨x, hsub hx, y, hsub hy, hxy⟩

/-- **Lists that end in one hash have the shorter one in common**, as it is shown, unless inputs of
their entries collide. -/
theorem suffix_or_collide {c c' : Cursor} {as bs : List Entry} (ha : Accepted c as)
    (hb : Accepted c' bs) (hafits : ∀ e ∈ as, e.event.Fits) (hbfits : ∀ e ∈ bs, e.event.Fits)
    (hlast : ∀ a ∈ as.getLast?, ∀ b ∈ bs.getLast?, a.hash = b.hash) :
    (as.map Entry.shown <:+ bs.map Entry.shown ∨ bs.map Entry.shown <:+ as.map Entry.shown) ∨
      SomeCollide ((as ++ bs).map Entry.hashInput) := by
  -- the last entries are shown alike, so the entries before them end in one hash again
  induction as using List.reverseRecOn generalizing bs with
  | nil => exact .inl (.inl List.nil_suffix)
  | append_singleton as a ih =>
    rcases List.eq_nil_or_concat bs with rfl | ⟨bs, b, rfl⟩
    · exact .inl (.inr List.nil_suffix)
    · rw [List.concat_eq_append] at *
      have hab : a.hash = b.hash := hlast a (by simp) b (by simp)
      rcases Entry.shown_eq_or_collides (hafits a (by simp)) (hbfits b (by simp))
        (ha.hash a (by simp)) (hb.hash b (by simp)) hab with hshown | hcollides
      · have hlinks : a.previousHash = b.previousHash := (Entry.shown_eq_iff.mp hshown).2.2.1
        have hprevious : ∀ d ∈ as.getLast?, ∀ e ∈ bs.getLast?, d.hash = e.hash := by
          intro d hd e he
          rw [← (ha.follows_of_getLast? hd).2, ← (hb.follows_of_getLast? he).2, hlinks]
        have hrest := ih ha.of_append hb.of_append
          (fun e he => hafits e (List.mem_append_left _ he))
          (fun e he => hbfits e (List.mem_append_left _ he)) hprevious
        rw [List.map_append, List.map_append, List.map_singleton, List.map_singleton, hshown,
          List.suffix_append_self_iff, List.suffix_append_self_iff]
        refine hrest.imp_right fun hcollide => hcollide.mono (List.map_subset _ ?_)
        intro e he
        rcases List.mem_append.mp he with he | he <;> simp [he]
      · exact .inr ⟨_, List.mem_map_of_mem (by simp), _, List.mem_map_of_mem (by simp), hcollides⟩

/-- Two lists are the same as far back as both reach, and altogether if both start at zero. -/
structure Agree (as bs : List Entry) : Prop where
  /-- The shorter one is the end of the longer one. -/
  suffix : as <:+ bs ∨ bs <:+ as
  /-- Lists that start at zero are the same. -/
  whole : ∀ (ha : as ≠ []) (hb : bs ≠ []), (as.head ha).sequence = 0 → (bs.head hb).sequence = 0 →
    as = bs

/-- **The terminal hash commits to the whole slice**, as it is shown.  Two slices that are found intact
and have one terminal hash are shown alike from the end on as far as both reach, and altogether if both
start at zero, and they are the same if no instant is in a leap second off the minute; or else two of
the octet strings that their entries were hashed from differ and have one digest. -/
theorem terminal_hash_commits {A B : Snapshot} (hA : A.entries ≠ []) (hB : B.entries ≠ [])
    (hAfits : ∀ e ∈ A.entries, e.event.Fits) (hBfits : ∀ e ∈ B.entries, e.event.Fits)
    (hAintact : (verifySnapshot A).finding = .intact)
    (hBintact : (verifySnapshot B).finding = .intact)
    (hlast : (A.entries.getLast hA).hash = (B.entries.getLast hB).hash) :
    (Agree (A.entries.map Entry.shown) (B.entries.map Entry.shown) ∧
      ((∀ e ∈ A.entries ++ B.entries, ¬e.event.occurredAt.OffMinute) →
        Agree A.entries B.entries)) ∨
    SomeCollide ((A.entries ++ B.entries).map Entry.hashInput) := by
  have ha := verifyEntries_intact_iff.mp hAintact
  have hb := verifyEntries_intact_iff.mp hBintact
  have hends : ∀ a ∈ A.entries.getLast?, ∀ b ∈ B.entries.getLast?, a.hash = b.hash := by
    intro a ha b hb
    rw [List.getLast?_eq_some_getLast hA] at ha
    rw [List.getLast?_eq_some_getLast hB] at hb
    rwa [Option.some.inj ha, Option.some.inj hb] at hlast
  refine (suffix_or_collide ha hb hAfits hBfits hends).imp_left fun hsuffix => ?_
  have hagree : Agree (A.entries.map Entry.shown) (B.entries.map Entry.shown) := by
    refine ⟨hsuffix, fun hA' hB' hAzero hBzero => ?_⟩
    -- what is shown of an intact slice is intact
    rw [verifySnapshot, ← verifyEntries_map_shown] at hAintact hBintact
    rcases hsuffix with hsuffix | hsuffix
    · exact (verifyEntries_intact_iff.mp hBintact).eq_of_suffix hsuffix hA' hAzero
    · exact ((verifyEntries_intact_iff.mp hAintact).eq_of_suffix hsuffix hB' hBzero).symm
  refine ⟨hagree, fun hshown => ?_⟩
  obtain ⟨hAshown, hBshown⟩ := List.forall_mem_append.mp hshown
  rwa [Entry.map_shown_of_not hAshown, Entry.map_shown_of_not hBshown] at hagree

/-- A ledger of two events. -/
def wholeSlice : Snapshot :=
  let entries := chainOf [.bare "first" "1", .bare "second" "2"]
  ⟨entries, .noon, terminalHash entries⟩

/-- The same without its first entry. -/
def laterSlice : Snapshot :=
  let entries := wholeSlice.entries.tail
  ⟨entries, .noon, terminalHash entries⟩

theorem terminal_hash_commits_later :
    let A := laterSlice.entries
    let B := wholeSlice.entries
    (∀ e ∈ A, e.event.Fits) ∧ (∀ e ∈ B, e.event.Fits) ∧
      (verifySnapshot laterSlice).finding = .intact ∧
      (verifySnapshot wholeSlice).finding = .intact ∧
      (∀ e ∈ A ++ B, ¬e.event.occurredAt.OffMinute) ∧
      ∃ (hA : A ≠ []) (hB : B ≠ []), (A.getLast hA).hash = (B.getLast hB).hash ∧
        (Agree A B ∨ SomeCollide ((A ++ B).map Entry.hashInput)) := by
  have hAfits : ∀ e ∈ laterSlice.entries, e.event.Fits := by decide +kernel
  have hBfits : ∀ e ∈ wholeSlice.entries, e.event.Fits := by decide +kernel
  have hshown : ∀ e ∈ laterSlice.entries ++ wholeSlice.entries, ¬e.event.occurredAt.OffMinute := by
    decide +kernel
  have hA : laterSlice.entries ≠ [] := List.cons_ne_nil _ _
  have hB : wholeSlice.entries ≠ [] := List.cons_ne_nil _ _
  have hAintact : (verifySnapshot laterSlice).finding = .intact := by
    refine verifyEntries_intact_iff.mpr (accepted_cons_iff.mpr ⟨⟨rfl, ?_⟩, rfl, accepted_nil _⟩)
    exact fun p hp => nomatch hp
  have hBintact : (verifySnapshot wholeSlice).finding = .intact := by
    refine verifyEntries_intact_iff.mpr (accepted_cons_iff.mpr ⟨⟨rfl, ?_⟩, rfl,
      accepted_cons_iff.mpr ⟨⟨rfl, ?_⟩, rfl, accepted_nil _⟩⟩)
    · rintro p ⟨⟩
      rfl
    · rintro p ⟨⟩
      rfl
  have hcommits := terminal_hash_commits hA hB hAfits hBfits hAintact hBintact rfl
  exact ⟨hAfits, hBfits, hAintact, hBintact, hshown, hA, hB, rfl,
    hcommits.imp_left fun hagree => hagree.2 hshown⟩

/-- A slice of one event at an instant. -/
def oneSlice (occurredAt : Timestamp) : Snapshot :=
  let entries := chainOf [.bare "first" "1" occurredAt]
  ⟨entries, .noon, terminalHash entries⟩

theorem verifySnapshot_oneSlice (occurredAt : Timestamp) :
    (verifySnapshot (oneSlice occurredAt)).finding = .intact := by
  refine verifyEntries_intact_iff.mpr (accepted_cons_iff.mpr ⟨⟨rfl, ?_⟩, rfl, accepted_nil _⟩)
  rintro p ⟨⟩
  rfl

/-- The terminal hash does not tell an instant from what it is shown as: two slices of one entry each
differ, and are intact, and their entries were hashed from the same octets. -/
theorem terminal_hash_stray :
    let A := oneSlice .stray
    let B := oneSlice Timestamp.stray.shown
    (∀ e ∈ A.entries ++ B.entries, e.event.Fits) ∧
      (verifySnapshot A).finding = .intact ∧ (verifySnapshot B).finding = .intact ∧
      A.terminalHash = B.terminalHash ∧ ¬(A.entries <:+ B.entries ∨ B.entries <:+ A.entries) ∧
      ¬SomeCollide ((A.entries ++ B.entries).map Entry.hashInput) := by
  intro A B
  let e : Entry := .sealed 0 (.bare "first" "1" .stray) genesisHash
  have hA : A.entries = [e] := rfl
  have hB : B.entries = [e.shown] := by
    rw [Entry.shown_sealed]
    rfl
  have hne : e ≠ e.shown := by
    intro heq
    have hoff : Timestamp.stray.OffMinute := by decide
    exact Entry.shown_eq_self_iff.mp heq.symm hoff
  refine ⟨by decide +kernel, verifySnapshot_oneSlice _, verifySnapshot_oneSlice _, ?_, ?_, ?_⟩
  · show terminalHash A.entries = terminalHash B.entries
    rw [hA, hB]
    rfl
  · rw [hA, hB]
    rintro (hsuffix | hsuffix)
    · exact hne (List.cons.inj (hsuffix.eq_of_length rfl)).1
    · exact hne (List.cons.inj (hsuffix.eq_of_length rfl)).1.symm
  · rw [hA, hB]
    rintro ⟨x, hx, y, hy, hxy, -⟩
    -- both were hashed from what is shown
    have hinput : ∀ z ∈ ([e] ++ [e.shown]).map Entry.hashInput, z = e.hashInput := by simp
    exact hxy ((hinput x hx).trans (hinput y hy).symm)

end AuditChain.Verify
