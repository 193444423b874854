import AuditChain.Proofs.Store.Slots
import AuditChain.Proofs.Store.Window
import AuditChain.Store.Basic
import AuditChain.Verify.Verifier

/-!
# A verification is a single pass

A verification reads in batches and starts over where a row cannot be read.  What it reports is
what a single pass over all rows of the range reports, whatever the size of the batches.  The loop
keeps this true: what is still to be read is what lies between the next sequence and the last one.

## Main definitions

* `Walk.pass` — the report of a single pass.
* `ReadsAs` — a store reads a range as these rows.

## Main results

* `walkFrom_run` — **reading in batches reports what a single pass reports.**
* `verify_run` — the same for a verification.
* `verifyAll_run` — how far a verification of everything goes.
-/

namespace AuditChain.Verify

open LedgerProgram (noting)
open Store (run_ask)

/-! ### A single pass -/

namespace Walk

/-- The report of a single pass over rows. -/
def pass (w : Walk) : List Slot → Report
  | [] => w.report .intact
  | .entry e :: slots =>
    match w.step e with
    | .error v => w.report (.violated v)
    | .ok w => w.pass slots
  | .unreadable sequence _ :: _ => undecodable w sequence

/-- A pass over entries first is a feed. -/
theorem pass_entries_append (w : Walk) (es : List Entry) (slots : List Slot) :
    w.pass (es.map .entry ++ slots) =
      match w.feed es with
      | .error report => report
      | .ok w => w.pass slots := by
  induction es generalizing w with
  | nil => rfl
  | cons e es ih =>
    rw [List.map_cons, List.cons_append, pass, feed]
    cases w.step e with
    | error v => rfl
    | ok w => exact ih w

/-- A walk that ends early ends with a violation. -/
theorem finding_of_feed_eq_error {w : Walk} {es : List Entry} {r : Report}
    (h : w.feed es = .error r) : r.finding ≠ .intact := by
  induction es generalizing w with
  | nil => cases h
  | cons e es ih =>
    rw [feed] at h
    cases hstep : w.step e with
    | error v =>
      rw [hstep] at h
      obtain rfl := Except.error.inj h
      exact Finding.noConfusion
    | ok w' =>
      rw [hstep] at h
      exact ih h

/-- A pass over entries alone is a feed to its end. -/
theorem pass_entries (w : Walk) (es : List Entry) :
    w.pass (es.map .entry) = conclude (w.feed es) := by
  have happend := w.pass_entries_append es []
  rw [List.append_nil] at happend
  rw [happend]
  cases w.feed es <;> rfl

/-- Nothing after a row that is no entry is looked at, and the pass is not found intact. -/
theorem pass_unreadable (w : Walk) (es : List Entry) (sequence : UInt64) (reason : String) :
    ∃ r : Report, r.finding ≠ .intact ∧
      ∀ slots, w.pass (es.map .entry ++ .unreadable sequence reason :: slots) = r := by
  simp only [pass_entries_append]
  cases hfeed : w.feed es with
  | error r => exact ⟨r, finding_of_feed_eq_error hfeed, fun _ => rfl⟩
  | ok w' => exact ⟨undecodable w' sequence, Finding.noConfusion, fun _ => rfl⟩

end Walk

/-! ### The loop -/

section Loop

variable {σ : Type} [Store σ] {s : σ} {slots : List Slot} {batch last : UInt64}

/-- The store reads every range from `first` to `last`, by so many rows at a time, as these rows. -/
def ReadsAs (s : σ) (slots : List Slot) (batch first last : UInt64) : Prop :=
  ∀ a b, first ≤ a → a ≤ b → b ≤ last →
    Store.range s a b batch = readSlots ((within Slot.sequence a b slots).take batch.toNat)

/-! ### One batch

The rows may be of any kind, as long as keys tell where they are; and what a walk comes to behind a
batch may be anything. -/

section Batch

variable {ρ : Type} {key : ρ → UInt64} {rows : List ρ} {next : UInt64} {es : List Entry}

/-- A walk that meets a row that is no entry reads what comes before, and ends there. -/
theorem stopAtRow_run (cancelled : Bool) (w : Walk) {sequence : UInt64}
    (hread : next < sequence → Store.range s next (sequence - 1) batch = .ok es)
    (hnone : sequence ≤ next → es = []) (reason : String) (rest : List Slot) :
    (stopAtRow batch w next sequence).run (Store.respond cancelled) s =
      (.ok (.ok (w.pass (es.map .entry ++ .unreadable sequence reason :: rest))), s) := by
  rw [Walk.pass_entries_append, stopAtRow]
  by_cases hlt : next < sequence
  · rw [if_pos hlt, run_ask]
    simp only [Store.reply, hread hlt]
    cases w.feed es with
    | error report => rfl
    | ok w => rfl
  · -- the row is the next one, so nothing comes before it
    rw [if_neg hlt, hnone (UInt64.not_lt.mp hlt)]
    rfl

/-- A batch that comes to a row that is no entry ends the walk there. -/
theorem walkFrom_run_of_unreadable (hasc : Ascending key rows) (cancelled : Bool) (w : Walk)
    {before after : List ρ} {x : ρ} {reason : String}
    (hread : Store.range s next last batch = .error (.corrupt (some (key x)) reason))
    (hwindow : within key next last rows = before ++ x :: after)
    (hbefore : ∀ b, next ≤ b → b ≤ last → within key next b rows = before →
      Store.range s next b batch = .ok es)
    (hlen : es.length = before.length) (rest : List Slot) :
    (walkFrom batch last w next).run (Store.respond cancelled) s =
      (.ok (.ok (w.pass (es.map .entry ++ .unreadable (key x) reason :: rest))), s) := by
  obtain ⟨-, hnext, hlast⟩ := mem_of_within_eq hwindow
  rw [walkFrom, run_ask]
  simp only [Store.reply, hread]
  rw [if_pos hnext]
  refine stopAtRow_run cancelled w (fun hlt => ?_) (fun hle => ?_) reason rest
  · have hbounds : next ≤ key x - 1 ∧ key x - 1 ≤ last := by
      simp only [UInt64.le_iff_toNat_le, UInt64.lt_iff_toNat_lt, toNat_pred_of_lt hlt]
        at hlt hlast ⊢
      omega
    exact hbefore _ hbounds.1 hbounds.2 (within_before hasc hwindow hlt)
  · rw [before_eq_nil hasc hwindow hle] at hlen
    exact List.length_eq_zero_iff.mp hlen

/-- A batch of entries is fed, and the walk goes on with the rest of the window, if there can be
one. -/
theorem walkFrom_run_of_entries (hbatch : 0 < batch.toNat) (hasc : Ascending key rows)
    (cancelled : Bool) (w : Walk) (out : Walk → Except Crash (Except AuditError Report))
    {taken rest : List ρ} (hread : Store.range s next last batch = .ok es)
    (hwindow : within key next last rows = taken ++ rest)
    (hkeys : taken.map key = es.map Entry.sequence)
    (hfull : taken.length < batch.toNat → rest = [])
    (hgo : ∀ newest w', next ≤ newest → newest < last →
      within key (newest + 1) last rows = rest →
      (walkFrom batch last w' (newest + 1)).run (Store.respond cancelled) s = (out w', s))
    (hend : rest = [] → ∀ w', out w' = .ok (.ok (w'.report .intact))) :
    (walkFrom batch last w next).run (Store.respond cancelled) s =
      (match w.feed es with
      | .error report => .ok (.ok report)
      | .ok w' => out w', s) := by
  have hlength : taken.length = es.length := by
    rw [← List.length_map key, hkeys, List.length_map]
  rw [walkFrom, run_ask]
  simp only [Store.reply, hread]
  rcases List.eq_nil_or_concat es with rfl | ⟨init, newest, rfl⟩
  · -- a batch is empty only if nothing is left
    show _ = (out w, s)
    rw [hend (hfull (hlength ▸ hbatch))]
    rfl
  · rw [List.concat_eq_append] at *
    obtain ⟨before, x, rfl, hx⟩ : ∃ before x, taken = before ++ [x] ∧ key x = newest.sequence := by
      rw [List.map_append, List.map_singleton, List.map_eq_append_iff] at hkeys
      obtain ⟨before, last, rfl, -, hlast⟩ := hkeys
      obtain ⟨x, rfl, hx⟩ := List.map_eq_singleton_iff.mp hlast
      exact ⟨before, x, rfl, hx⟩
    rw [List.append_assoc, List.singleton_append] at hwindow
    have hnewest : next ≤ newest.sequence := hx ▸ (mem_of_within_eq hwindow).2.1
    rw [List.getLast?_concat]
    cases w.feed (init ++ [newest]) with
    | error report => rfl
    | ok w' =>
      simp only [noting]
      rw [run_ask]
      split
      · rename_i hmore
        have hrest := within_after hasc hwindow (hx ▸ hmore.2.2)
        rw [hx] at hrest
        exact hgo newest.sequence w' hnewest hmore.2.2 hrest
      · rename_i hstop
        rw [← hlength, ← hx] at hstop
        rw [hend (rest_eq_nil_of_stop hasc hwindow hfull hstop)]
        rfl

end Batch

/-! ### All batches -/

/-- **Reading in batches reports what a single pass reports.**  The walk goes on from `next`, and
what it still has to read is the window from there; each batch takes something off the window. -/
theorem walkFrom_run (hbatch : 0 < batch.toNat) (hasc : Ascending Slot.sequence slots)
    {first : UInt64} (hreads : ReadsAs s slots batch first last) (cancelled : Bool) (w : Walk)
    {next : UInt64} (hfirst : first ≤ next) (hnext : next ≤ last) :
    (walkFrom batch last w next).run (Store.respond cancelled) s =
      (.ok (.ok (w.pass (within Slot.sequence next last slots))), s) := by
  -- from one batch to the next
  induction next using ahead_induction last generalizing w with
  | step next ih =>
    have hread := hreads next last hfirst hnext (UInt64.le_refl last)
    obtain ⟨rows, rest, hwindow, hrows, hlen, hfull⟩ :=
      exists_take batch.toNat (within Slot.sequence next last slots)
    rw [hrows] at hread
    rcases slots_cases rows with ⟨es, rfl⟩ | ⟨es, sequence, reason, rest', rfl⟩
    · rw [readSlots_entries] at hread
      have hkeys : (es.map Slot.entry).map Slot.sequence = es.map Entry.sequence := by simp
      rw [walkFrom_run_of_entries hbatch hasc cancelled w (fun w' => .ok (.ok (w'.pass rest))) hread
        hwindow hkeys hfull, hwindow, Walk.pass_entries_append]
      · cases w.feed es <;> rfl
      · intro newest w' hnewest hlt hrest
        have hahead : first ≤ newest + 1 := le_succ_of_le_of_lt (UInt64.le_trans hfirst hnewest) hlt
        rw [← hrest]
        exact ih newest hnewest hlt w' hahead (succ_within hnewest hlt).1
      · rintro rfl w'
        rfl
    · rw [readSlots_unreadable] at hread
      rw [List.append_assoc, List.cons_append] at hwindow
      rw [hwindow]
      refine walkFrom_run_of_unreadable hasc cancelled w hread hwindow ?_ (by simp) _
      intro b hb hle hbefore
      have hshort : (es.map Slot.entry).length ≤ batch.toNat := by
        rw [List.length_append, List.length_cons] at hlen
        omega
      rw [hreads next b hfirst hb hle, hbefore, List.take_of_length_le hshort, readSlots_entries]

theorem toNat_max_one (n : UInt64) : (max n 1).toNat = max n.toNat 1 := by
  show (if n ≤ 1 then 1 else n).toNat = _
  split
  · rename_i hone
    rw [UInt64.le_iff_toNat_le, UInt64.toNat_one] at hone
    rw [UInt64.toNat_one]
    omega
  · rename_i hone
    rw [UInt64.le_iff_toNat_le, UInt64.toNat_one] at hone
    omega

theorem max_one_pos (n : UInt64) : 0 < (max n 1).toNat := by
  rw [toNat_max_one]
  omega

/-- **A verification reports what a single pass over the range reports**, whatever the size of the
batches. -/
theorem verify_run {first : UInt64} (hasc : Ascending Slot.sequence slots)
    (hreads : ReadsAs s slots (max batch 1) first last) (cancelled : Bool) (hle : first ≤ last) :
    (verify batch first last).run (Store.respond cancelled) s =
      (.ok (.ok ((Walk.start first last).pass (within Slot.sequence first last slots))), s) := by
  rw [verify, if_neg (UInt64.not_lt.mpr hle)]
  exact walkFrom_run (max_one_pos batch) hasc hreads cancelled (Walk.start first last)
    (UInt64.le_refl first) hle

/-- A store that has no more to read in a range is walked along in one go. -/
theorem walkFrom_run_of_short {es : List Entry} {next : UInt64}
    (hread : Store.range s next last batch = .ok es) (hshort : es.length < batch.toNat)
    (cancelled : Bool) (w : Walk) : (walkFrom batch last w next).run (Store.respond cancelled) s =
      (.ok (.ok (Walk.conclude (w.feed es))), s) := by
  rw [walkFrom, run_ask]
  simp only [Store.reply, hread]
  rcases List.eq_nil_or_concat es with rfl | ⟨init, newest, rfl⟩
  · rfl
  · rw [List.concat_eq_append] at *
    rw [List.getLast?_concat]
    have hfull : ¬(batch.toNat ≤ (init ++ [newest]).length ∧ next ≤ newest.sequence ∧
        newest.sequence < last) := fun h => Nat.not_le.mpr hshort h.1
    cases w.feed (init ++ [newest]) with
    | error report => rfl
    | ok w =>
      simp only [noting]
      rw [run_ask, dif_neg hfull]
      rfl

/-- To verify everything is to verify the range up to the greatest sequence. -/
theorem verifyAll_run {es : List Entry} (hasc : Ascending Entry.sequence es)
    (htail : Store.tail s = .ok (es.getLast?.map Entry.tail)) (batch : UInt64) (cancelled : Bool) :
    ∃ last, (∀ e ∈ es, e.sequence ≤ last) ∧ (es = [] ∧ last = 0 ∨ ∃ e ∈ es, e.sequence = last) ∧
      (verifyAll batch).run (Store.respond cancelled) s =
        (verify batch 0 last).run (Store.respond cancelled) s := by
  rw [verifyAll, run_ask]
  simp only [Store.reply, htail]
  rcases List.eq_nil_or_concat es with rfl | ⟨init, newest, rfl⟩
  · exact ⟨0, by simp, .inl ⟨rfl, rfl⟩, rfl⟩
  · rw [List.concat_eq_append] at *
    rw [List.getLast?_concat]
    refine ⟨newest.sequence, ?_, .inr ⟨newest, by simp, rfl⟩, rfl⟩
    intro e he
    rcases List.mem_append.mp he with he | he
    · exact UInt64.le_of_lt (hasc.split.1 e he)
    · rw [List.mem_singleton.mp he]
      exact UInt64.le_refl _

end Loop

end AuditChain.Verify
