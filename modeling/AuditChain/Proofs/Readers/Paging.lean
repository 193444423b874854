import AuditChain.Proofs.Append.Effect
import AuditChain.Proofs.Readers.Export
import AuditChain.Proofs.Readers.Undisturbed
import Mathlib.Data.Fintype.Card
import Mathlib.Data.List.Forall2

/-!
# Paging through a chain

Pages are counted from the newest entry.  As long as nothing comes in, the pages of one size make up
the whole chain, and none but the last one has room left.

What comes in between two reads pushes older entries towards the later pages, never towards the
earlier ones.  So whoever turns over page after page may see an entry twice, but skips none: what
was there at the first read and is not on a page yet is still ahead, until a page has no next one.

## Main definitions

* `Query.Invalid` — a page that cannot be asked for.
* `Query.pageOf` — a page as a list of entries makes it.
* `Query.Paginates` — pages of one size make up what a store holds.
* `Query.walkPages` — a client that turns over one page after another.
* `Lengthening`, `ReachesBack` — what the client is shown, and how far its pages reach back.

## Main results

* `Query.lt_totalPages_iff` — how many pages there are.
* `ReachesBack.turn` — the next page reaches further back by its size.
* `Query.walkPages_meets` — what the client comes to.
* `paging_covers` — **paging covers the chain.**
-/

namespace AuditChain

open Store (run_ask)

/-- There are not more entries than sequences. -/
theorem Ascending.length_le {es : List Entry} (hasc : Ascending Entry.sequence es) :
    es.length ≤ maxSequence.toNat + 1 := by
  have hnodup : (es.map fun e => e.sequence.toFin).Nodup := by
    rw [List.Nodup, List.pairwise_map]
    refine hasc.pairwise_ne.imp ?_
    intro d e hne heq
    exact hne (UInt64.toFin_inj.mp heq)
  have hcard := hnodup.length_le_card
  rwa [List.length_map, Fintype.card_fin] at hcard

namespace Query

/-! ### Single pages -/

/-- The page cannot be asked for. -/
def Invalid (maxPageSize number size : UInt64) : Prop :=
  number = 0 ∨ size = 0 ∨ maxPageSize < size ∨ maxSequence.toNat < (number.toNat - 1) * size.toNat

/-- A page as the entries make it, the newest first. -/
def pageOf (es : List Entry) (number size : Nat) : Page Entry :=
  ⟨(es.reverse.drop ((number - 1) * size)).take size, es.length, number, size⟩

variable {maxPageSize number size : UInt64}

theorem listPage_of_invalid (h : Invalid maxPageSize number size) :
    ∃ reason, listPage maxPageSize number size = .done (.error (.invalidPage reason)) := by
  unfold listPage
  by_cases hnumber : number = 0
  · exact ⟨_, if_pos hnumber⟩
  · rw [if_neg hnumber]
    by_cases hsize : size = 0 ∨ maxPageSize < size
    · exact ⟨_, if_pos hsize⟩
    · rw [if_neg hsize]
      obtain ⟨hzero, hlt⟩ := not_or.mp hsize
      have hoffset := ((h.resolve_left hnumber).resolve_left hzero).resolve_left hlt
      exact ⟨_, if_pos hoffset⟩

/-- What is asked for a page that can be asked for. -/
theorem listPage_of_valid (h : ¬Invalid maxPageSize number size) :
    listPage maxPageSize number size =
      .ask (.latest (UInt64.ofNat ((number.toNat - 1) * size.toNat)) size) fun
        | .error e => .done (.error e.toAuditError)
        | .ok slice => LedgerProgram.noting .pageRead
            (.done (.ok ⟨slice.items, slice.total, number.toNat, size.toNat⟩)) := by
  unfold Invalid at h
  simp only [not_or] at h
  obtain ⟨hnumber, hzero, hlt, hoffset⟩ := h
  have hsize : ¬(size = 0 ∨ maxPageSize < size) := not_or.mpr ⟨hzero, hlt⟩
  unfold listPage
  rw [if_neg hnumber, if_neg hsize]
  dsimp only
  rw [if_neg hoffset]
  refine congrArg (Program.ask _) (funext fun reply => ?_)
  cases reply with
  | error e => rfl
  | ok slice => rfl

/-- The offset of a page that can be asked for is not cut down. -/
theorem latest_of_valid (h : ¬Invalid maxPageSize number size) (m : MemoryStore) :
    m.latest (UInt64.ofNat ((number.toNat - 1) * size.toNat)) size =
      ⟨(pageOf m.entries number.toNat size.toNat).items, m.entries.length⟩ := by
  unfold Invalid at h
  simp only [not_or] at h
  have hoffset : (UInt64.ofNat ((number.toNat - 1) * size.toNat)).toNat =
      (number.toNat - 1) * size.toNat :=
    UInt64.toNat_ofNat_of_lt' (Nat.lt_succ_of_le (Nat.not_lt.mp h.2.2.2))
  unfold MemoryStore.latest pageOf
  rw [hoffset]

/-- A store in memory shows a page. -/
def Shows (m : MemoryStore) (maxPageSize size number : UInt64) (page : Page Entry) : Prop :=
  ∀ cancelled, (listPage maxPageSize number size).run (Store.respond cancelled) m =
    (.ok (.ok page), m)

theorem shows_of_valid (h : ¬Invalid maxPageSize number size) (m : MemoryStore) :
    Shows m maxPageSize size number (pageOf m.entries number.toNat size.toNat) := by
  intro cancelled
  have hread := latest_of_valid h m
  rw [listPage_of_valid h, run_ask]
  show Program.run _ (LedgerProgram.noting _ _) _ = _
  rw [hread]
  rfl

/-- A store shows one page under a number, and only if it can be asked for. -/
theorem Shows.eq {m : MemoryStore} {page : Page Entry}
    (h : Shows m maxPageSize size number page) :
    ¬Invalid maxPageSize number size ∧ page = pageOf m.entries number.toNat size.toNat := by
  have hrun := h false
  by_cases hinvalid : Invalid maxPageSize number size
  · obtain ⟨reason, hreason⟩ := listPage_of_invalid hinvalid
    rw [hreason] at hrun
    simp [Program.run] at hrun
  · refine ⟨hinvalid, ?_⟩
    rw [shows_of_valid hinvalid m false] at hrun
    simpa using hrun.symm

/-! ### All pages of one size -/

variable {es : List Entry} {n k : Nat}

/-- A page is one of all pages if something is left before it. -/
theorem lt_totalPages_iff (hk : 0 < k) (es : List Entry) (n i : Nat) :
    i < (pageOf es n k).totalPages ↔ i * k < es.length := by
  have hne : (pageOf es n k).pageSize ≠ 0 := Nat.ne_of_gt hk
  rw [Page.totalPages, if_neg hne]
  show i < (if 0 < es.length % k then es.length / k + 1 else es.length / k) ↔ _
  split
  · rename_i hleft
    -- the full pages do not end where the entries do
    have hcut : i * k ≠ es.length := by
      intro heq
      rw [← heq, Nat.mul_mod_left] at hleft
      exact Nat.lt_irrefl 0 hleft
    rw [Nat.lt_succ_iff, Nat.le_div_iff_mul_le hk]
    omega
  · rename_i hleft
    have hdvd : k ∣ es.length := Nat.dvd_of_mod_eq_zero (Nat.eq_zero_of_not_pos hleft)
    rw [Nat.lt_div_iff_mul_lt_of_dvd (Nat.ne_of_gt hk) hdvd]

theorem hasNext_iff (hk : 0 < k) (es : List Entry) (n : Nat) :
    (pageOf es n k).hasNext = true ↔ n * k < es.length := by
  rw [← lt_totalPages_iff hk es n n]
  exact decide_eq_true_iff

theorem length_items_pageOf (es : List Entry) (n k : Nat) :
    (pageOf es n k).items.length = min k (es.length - (n - 1) * k) := by
  simp [pageOf]

theorem items_eq_nil_iff (hk : 0 < k) (es : List Entry) (n : Nat) :
    (pageOf es n k).items = [] ↔ es.length ≤ (n - 1) * k := by
  rw [← List.length_eq_zero_iff, length_items_pageOf]
  omega

/-- There are not more pages than entries. -/
theorem totalPages_le (hk : 0 < k) (es : List Entry) (n : Nat) :
    (pageOf es n k).totalPages ≤ es.length := by
  have hlast := lt_totalPages_iff hk es n es.length
  have hle : es.length ≤ es.length * k := Nat.le_mul_of_pos_right _ hk
  omega

/-- The first pages are the beginning of the chain, read from its new end. -/
theorem flatMap_pageOf (es : List Entry) (k count : Nat) :
    (List.range' 1 count).flatMap (fun n => (pageOf es n k).items) =
      es.reverse.take (count * k) := by
  induction count with
  | zero => simp
  | succ count ih =>
    rw [List.range'_1_concat, List.flatMap_append, ih, Nat.succ_mul, List.take_add]
    simp [pageOf]

/-- The pages of one size make up what a store in memory holds. -/
structure Paginates (m : MemoryStore) (maxPageSize size : UInt64) : Prop where
  /-- The pages from the first one to the last are shown, and make up all entries, -/
  covered : ∀ numbers : List UInt64, numbers.map UInt64.toNat =
      List.range' 1 (pageOf m.entries 1 size.toNat).totalPages →
    ∃ pages, List.Forall₂ (Shows m maxPageSize size) numbers pages ∧
      pages.flatMap Page.items = m.entries.reverse
  /-- the newest one first. -/
  descending : m.entries.reverse.Pairwise fun newer older => older.sequence < newer.sequence
  /-- Every page tells how many entries and pages there are, which does not exceed the number of
  sequences. -/
  counted : ∀ number page, Shows m maxPageSize size number page →
    page.totalCount = m.entries.length ∧ page.totalCount ≤ maxSequence.toNat + 1 ∧
      page.totalPages = (pageOf m.entries 1 size.toNat).totalPages ∧
      page.totalPages ≤ page.totalCount
  /-- A page that is not the last one is full, -/
  full : ∀ number page, Shows m maxPageSize size number page →
    number.toNat < page.totalPages → page.items.length = size.toNat
  /-- the last one is not empty, -/
  last : ∀ number page, Shows m maxPageSize size number page →
    number.toNat = page.totalPages → page.items ≠ []
  /-- and a later one is. -/
  later : ∀ number page, Shows m maxPageSize size number page →
    page.totalPages < number.toNat → page.items = []
  /-- A page has a next one just if that is shown and not empty. -/
  next : ∀ number next page, Shows m maxPageSize size number page →
    next.toNat = number.toNat + 1 →
    (page.hasNext = true ↔ ∃ page', Shows m maxPageSize size next page' ∧ page'.items ≠ [])

/-- Where something is left before a page, it can be asked for. -/
theorem not_invalid_of_lt (hsize : size ≠ 0) (hle : size ≤ maxPageSize) (hnumber : number ≠ 0)
    (hasc : Ascending Entry.sequence es) (hlt : (number.toNat - 1) * size.toNat < es.length) :
    ¬Invalid maxPageSize number size := by
  have hlength := hasc.length_le
  rintro (h | h | h | h)
  · exact hnumber h
  · exact hsize h
  · exact UInt64.not_lt.mpr hle h
  · omega

theorem toNat_pos (hsize : size ≠ 0) : 0 < size.toNat :=
  Nat.pos_of_ne_zero fun h => hsize (UInt64.toNat_inj.mp h)

theorem paginates (m : MemoryStore) (hsize : size ≠ 0) (hle : size ≤ maxPageSize) :
    Paginates m maxPageSize size where
  covered := by
    intro numbers hnumbers
    refine ⟨numbers.map fun number => pageOf m.entries number.toNat size.toNat, ?_, ?_⟩
    · rw [List.forall₂_map_right_iff, List.forall₂_same]
      intro number hmem
      apply shows_of_valid
      have hrange : number.toNat ∈
          List.range' 1 (pageOf m.entries 1 size.toNat).totalPages := by
        rw [← hnumbers]
        exact List.mem_map_of_mem hmem
      obtain ⟨hpos, hlast⟩ := List.mem_range'_1.mp hrange
      have hnumber : number ≠ 0 := by
        rintro rfl
        simp at hpos
      have hlt := (lt_totalPages_iff (toNat_pos hsize) m.entries 1 (number.toNat - 1)).mp (by omega)
      exact not_invalid_of_lt hsize hle hnumber m.ascending hlt
    · have hall := flatMap_pageOf m.entries size.toNat
        (pageOf m.entries 1 size.toNat).totalPages
      rw [← hnumbers, List.flatMap_map] at hall
      rw [List.flatMap_map, hall, List.take_of_length_le]
      -- behind the last page nothing is left
      have hend := lt_totalPages_iff (toNat_pos hsize) m.entries 1
        (pageOf m.entries 1 size.toNat).totalPages
      rw [List.length_reverse]
      omega
  descending := List.pairwise_reverse.mpr m.ascending
  counted := by
    intro number page hshows
    obtain ⟨-, rfl⟩ := hshows.eq
    exact ⟨rfl, m.ascending.length_le, rfl, totalPages_le (toNat_pos hsize) _ _⟩
  full := by
    intro number page hshows hlt
    obtain ⟨hvalid, rfl⟩ := hshows.eq
    have hnext := (lt_totalPages_iff (toNat_pos hsize) _ _ _).mp hlt
    have hpos : 0 < number.toNat := toNat_pos fun h => hvalid (.inl h)
    have hmul : number.toNat * size.toNat = (number.toNat - 1) * size.toNat + size.toNat := by
      rw [← Nat.succ_mul, Nat.succ_eq_add_one, Nat.sub_add_cancel hpos]
    rw [length_items_pageOf]
    omega
  last := by
    intro number page hshows heq
    obtain ⟨hvalid, rfl⟩ := hshows.eq
    have hpos : 0 < number.toNat := toNat_pos fun h => hvalid (.inl h)
    have hlt := (lt_totalPages_iff (toNat_pos hsize) m.entries number.toNat (number.toNat - 1)).mp
      (by omega)
    rw [Ne, items_eq_nil_iff (toNat_pos hsize)]
    omega
  later := by
    intro number page hshows hlt
    obtain ⟨-, rfl⟩ := hshows.eq
    have hnone := lt_totalPages_iff (toNat_pos hsize) m.entries number.toNat (number.toNat - 1)
    rw [items_eq_nil_iff (toNat_pos hsize)]
    omega
  next := by
    intro number next page hshows hnext
    obtain ⟨-, rfl⟩ := hshows.eq
    rw [hasNext_iff (toNat_pos hsize)]
    have hprev : next.toNat - 1 = number.toNat := by omega
    constructor
    · intro hlt
      have hne : next ≠ 0 := by
        rintro rfl
        simp at hnext
      rw [← hprev] at hlt
      have hvalid := not_invalid_of_lt hsize hle hne m.ascending hlt
      refine ⟨_, shows_of_valid hvalid m, ?_⟩
      rw [Ne, items_eq_nil_iff (toNat_pos hsize)]
      exact Nat.not_le.mpr hlt
    · rintro ⟨page', hshows', hitems⟩
      obtain ⟨-, rfl⟩ := hshows'.eq
      rw [Ne, items_eq_nil_iff (toNat_pos hsize), hprev] at hitems
      exact Nat.not_le.mp hitems

/-! ### Turning over pages -/

/-- A client that reads one page after another and keeps them, until a page has no next one. -/
def walkPages (maxPageSize size number : UInt64) (before : List (Page Entry)) :
    LedgerProgram (Except AuditError (List (Page Entry))) :=
  (listPage maxPageSize number size).bind fun
  | .error e => .done (.error e)
  | .ok page =>
    if _h : page.hasNext = true ∧ number < maxSequence then
      walkPages maxPageSize size (number + 1) (before ++ [page])
    else .done (.ok (before ++ [page]))
termination_by maxSequence.toNat - number.toNat
decreasing_by
  have hlt := UInt64.lt_iff_toNat_lt.mp _h.2
  have hnext := toNat_succ_of_lt _h.2
  omega

theorem listPage_asks (maxPageSize number size : UInt64) :
    (listPage maxPageSize number size).Asks Request.IsReaders := by
  unfold listPage
  split
  · trivial
  · split
    · trivial
    · dsimp only
      split
      · trivial
      · refine ⟨trivial, ?_⟩
        rintro (err | slice)
        · trivial
        · exact ⟨trivial, fun _ => trivial⟩

theorem walkPages_asks (maxPageSize size number : UInt64) (before : List (Page Entry)) :
    (walkPages maxPageSize size number before).Asks Request.IsReaders := by
  induction number using ahead_induction maxSequence generalizing before with
  | step number ih =>
    rw [walkPages]
    apply (listPage_asks maxPageSize number size).bind
    rintro (err | page)
    · trivial
    · dsimp only
      split
      · rename_i hmore
        exact ih number (UInt64.le_refl number) hmore.2 _
      · trivial

end Query

section Turning

variable {ι : Type} {own : List (Move ledger ι MemoryStore)} {m : Move ledger ι MemoryStore}

/-- A store in memory answers, and what it holds is longer each time, at its new end. -/
structure Lengthening (own : List (Move ledger ι MemoryStore)) : Prop where
  served : ∀ m ∈ own, Serves m.before m.exchange m.after
  grown : own.Pairwise fun newer older => older.before.entries <+: newer.before.entries

namespace Lengthening

theorem of_cons (h : Lengthening (m :: own)) : Lengthening own where
  served := (List.forall_mem_cons.mp h.served).2
  grown := (List.pairwise_cons.mp h.grown).2

theorem filter (h : Lengthening own) (p : Move ledger ι MemoryStore → Bool) :
    Lengthening (own.filter p) where
  served := fun m hm => h.served m (List.mem_of_mem_filter hm)
  grown := h.grown.filter p

theorem latest_eq {i : ι} {s s' : MemoryStore} {offset limit : UInt64}
    {reply : Except StoreError Slice}
    (h : Lengthening (⟨i, s, ⟨.latest offset limit, reply⟩, s'⟩ :: own)) :
    reply = .ok (s.latest offset limit) := by
  obtain ⟨cancelled, hreply⟩ := h.served _ List.mem_cons_self
  exact (Prod.mk.inj hreply).1.symm

/-- What was there at the first read is the beginning of what is there at any other. -/
theorem begins (h : Lengthening own) {first : Move ledger ι MemoryStore}
    (hfirst : own.getLast? = some first) :
    ∀ m ∈ own, first.before.entries <+: m.before.entries := by
  obtain ⟨init, rfl⟩ := List.getLast?_eq_some_iff.mp hfirst
  obtain ⟨-, -, hinit⟩ := List.pairwise_append.mp h.grown
  intro m hm
  rcases List.mem_append.mp hm with hm | hm
  · exact hinit m hm first (List.mem_singleton_self first)
  · rw [List.mem_singleton.mp hm]

end Lengthening

/-- **Callers who only append are shown a store that is lengthened**, whatever it held before. -/
theorem Run.lengthening {α : Type} [DecidableEq ι] {P Q : Pool ledger ι MemoryStore α}
    {kind : Event → Prop} {h : List (Move ledger ι MemoryStore)}
    (happends : ∀ i, Appends kind (P.program i) []) (hrun : Run Serves P h Q) (i : ι) :
    Lengthening (movesOf i h) := by
  suffices hall : Lengthening h from hall.filter _
  refine ⟨hrun.answered, ?_⟩
  induction hrun with
  | start => exact .nil
  | move hrun _ _ ih =>
    refine List.pairwise_cons.mpr ⟨?_, ih⟩
    intro older holder
    have hgrown := (hrun.mono fun _ _ _ => Or.inl).grown MemoryStore.keepsOrder trivial happends
    obtain ⟨rest, heq, -⟩ := hgrown.outgrows older holder
    exact ⟨rest, heq.symm⟩

/-! ### How far pages reach back -/

/-- What has been there since before the first of these reads is on one of the pages, unless there
are `k` entries or more behind it by now. -/
def ReachesBack (k : Nat) (pages : List (Page Entry)) (own : List (Move ledger ι MemoryStore)) :
    Prop :=
  ∀ old es, (∀ m ∈ own, old <+: m.before.entries) → old <+: es →
    (∀ m ∈ own, m.before.entries <+: es) → ∀ e ∈ old.drop (es.length - k), ∃ p ∈ pages, e ∈ p.items

/-- What is among the newest `j + k` entries is on a page of size `k` after the newest `j`, or among
the newest `j`. -/
theorem mem_page_or {old es : List Entry} (hold : old <+: es) {j k : Nat} {e : Entry}
    (he : e ∈ old.drop (es.length - (j + k))) :
    e ∈ (es.reverse.drop j).take k ∨ e ∈ old.drop (es.length - j) := by
  obtain ⟨place, hplace⟩ := List.mem_iff_getElem?.mp he
  rw [List.getElem?_drop] at hplace
  have hlt := (List.getElem?_eq_some_iff.mp hplace).1
  have hlength := hold.length_le
  by_cases hnewer : es.length - j ≤ es.length - (j + k) + place
  · right
    apply List.mem_of_getElem? (i := es.length - (j + k) + place - (es.length - j))
    rwa [List.getElem?_drop, Nat.add_sub_cancel' hnewer]
  · left
    -- the same place, counted from the new end
    have hes : es[es.length - (j + k) + place]? = some e := by
      rw [List.prefix_iff_getElem?.mp hold _ hlt, ← hplace]
      exact (List.getElem?_eq_getElem hlt).symm
    apply List.mem_of_getElem? (i := es.length - 1 - (es.length - (j + k) + place) - j)
    rw [List.getElem?_take_of_lt (by omega), List.getElem?_drop, List.getElem?_reverse (by omega),
      ← hes]
    congr 1
    omega

namespace ReachesBack

variable {k size : Nat} {pages : List (Page Entry)} {page : Page Entry}

theorem start : ReachesBack 0 [] ([] : List (Move ledger ι MemoryStore)) := by
  intro old es _ hold _ e he
  rw [Nat.sub_zero, List.drop_of_length_le hold.length_le] at he
  cases he

theorem cons (h : ReachesBack k pages own) (m : Move ledger ι MemoryStore) :
    ReachesBack k pages (m :: own) := by
  intro old es hbefore hold hown
  exact h old es (List.forall_mem_cons.mp hbefore).2 hold (List.forall_mem_cons.mp hown).2

/-- The next page reaches further back by its size, however much has come in before it. -/
theorem turn (h : ReachesBack k pages own) (hshown : Lengthening (m :: own))
    (hitems : page.items = (m.before.entries.reverse.drop k).take size) :
    ReachesBack (k + size) (pages ++ [page]) (m :: own) := by
  intro old es hbefore hold hown e he
  obtain ⟨hm, hbefore⟩ := List.forall_mem_cons.mp hbefore
  have hlength := (List.forall_mem_cons.mp hown).1.length_le
  -- entries that have come in since the read only push others further back
  have hread : e ∈ old.drop (m.before.entries.length - (k + size)) :=
    List.drop_subset_drop_left old (by omega) he
  rcases mem_page_or hm hread with hpage | hnewer
  · rw [← hitems] at hpage
    exact ⟨page, by simp, hpage⟩
  · have hgrown := (List.pairwise_cons.mp hshown.grown).1
    obtain ⟨p, hp, hep⟩ := h old m.before.entries hbefore hm hgrown e hnewer
    exact ⟨p, List.mem_append_left _ hp, hep⟩

/-- Once the pages reach back over all that is there, nothing of the first read is missing. -/
theorem all (h : ReachesBack k pages (m :: own)) (hshown : Lengthening (m :: own))
    (hk : m.before.entries.length ≤ k) {first : Move ledger ι MemoryStore}
    (hfirst : (m :: own).getLast? = some first) :
    ∀ e ∈ first.before.entries, ∃ p ∈ pages, e ∈ p.items := by
  intro e he
  have hbegins := hshown.begins hfirst
  refine h first.before.entries m.before.entries hbegins (hbegins m List.mem_cons_self) ?_ e ?_
  · exact List.forall_mem_cons.mpr ⟨List.prefix_rfl, (List.pairwise_cons.mp hshown.grown).1⟩
  · rwa [Nat.sub_eq_zero_of_le hk, List.drop_zero]

end ReachesBack

namespace Query

variable {bound : ℕ} {i : ι} {maxPageSize size number : UInt64} {pages : List (Page Entry)}

/-- What a client ends with that has turned over one page after another: pages that are numbered from
one on.  The last one has a next page only if there are no numbers left; and if it has none, all that
was there at the first read is on the pages. -/
def SkipsNone (own : List (Move ledger ι MemoryStore))
    (r : Except AuditError (List (Page Entry))) : Prop :=
  ∃ pages last, r = .ok (pages ++ [last]) ∧
    (pages ++ [last]).map Page.pageNumber = List.range' 1 (pages.length + 1) ∧
    (last.hasNext = true → pages.length + 1 = maxSequence.toNat) ∧
    (last.hasNext = false → ∃ first, own.getLast? = some first ∧
      ∀ e ∈ first.before.entries, ∃ p ∈ pages ++ [last], e ∈ p.items)

/-- How far a client has come that is about to read a page. -/
structure AtPage (maxPageSize size number : UInt64) (pages : List (Page Entry))
    (own : List (Move ledger ι MemoryStore)) : Prop where
  /-- The page can be asked for. -/
  valid : ¬Invalid maxPageSize number size
  /-- The pages before it have been read, -/
  number_eq : number.toNat = pages.length + 1
  numbered : pages.map Page.pageNumber = List.range' 1 pages.length
  /-- and reach back so far. -/
  reaches : ReachesBack (pages.length * size.toNat) pages own

/-- A page is read in two calls, the first of which shows it. -/
theorem listPage_meets (h : ¬Invalid maxPageSize number size) (hroom : own.length + 2 ≤ bound) :
    (listPage maxPageSize number size).Meets Lengthening bound
      (fun own' r => ∃ n m, own' = n :: m :: own ∧ Lengthening (m :: own) ∧
        r = .ok (pageOf m.before.entries number.toNat size.toNat)) i own := by
  rw [listPage_of_valid h]
  refine ⟨by omega, ?_⟩
  intro s reply s' hshown
  obtain rfl := hshown.latest_eq
  refine ⟨by rw [List.length_cons]; omega, ?_⟩
  intro s₁ reply₁ s₁' _
  refine ⟨_, _, rfl, hshown, ?_⟩
  rw [latest_of_valid h]
  rfl

theorem AtPage.size_ne_zero (h : AtPage maxPageSize size number pages own) : size ≠ 0 :=
  fun hzero => h.valid (.inr (.inl hzero))

theorem AtPage.size_pos (h : AtPage maxPageSize size number pages own) : 0 < size.toNat :=
  toNat_pos h.size_ne_zero

theorem AtPage.items_eq (h : AtPage maxPageSize size number pages own) (es : List Entry) :
    (pageOf es number.toNat size.toNat).items =
      (es.reverse.drop (pages.length * size.toNat)).take size.toNat := by
  rw [pageOf, h.number_eq, Nat.add_sub_cancel]

theorem AtPage.numbered_concat (h : AtPage maxPageSize size number pages own) (es : List Entry) :
    (pages ++ [pageOf es number.toNat size.toNat]).map Page.pageNumber =
      List.range' 1 (pages.length + 1) := by
  rw [List.map_append, h.numbered, List.range'_1_concat]
  simp [pageOf, h.number_eq, Nat.add_comm]

theorem AtPage.reaches_concat (h : AtPage maxPageSize size number pages own)
    (hshown : Lengthening (m :: own)) :
    ReachesBack ((pages.length + 1) * size.toNat)
      (pages ++ [pageOf m.before.entries number.toNat size.toNat]) (m :: own) := by
  rw [Nat.succ_mul]
  exact h.reaches.turn hshown (h.items_eq m.before.entries)

/-- A client whose page has a next one comes to it. -/
theorem AtPage.next (h : AtPage maxPageSize size number pages own) (hshown : Lengthening (m :: own))
    (hmore : (pageOf m.before.entries number.toNat size.toNat).hasNext = true)
    (hlt : number < maxSequence) (n : Move ledger ι MemoryStore) :
    AtPage maxPageSize size (number + 1)
      (pages ++ [pageOf m.before.entries number.toNat size.toNat]) (n :: m :: own) := by
  have hle : size ≤ maxPageSize := UInt64.not_lt.mp fun hlt => h.valid (.inr (.inr (.inl hlt)))
  have hleft := (hasNext_iff h.size_pos _ _).mp hmore
  have hsucc := toNat_succ_of_lt hlt
  have hlength : (pages ++ [pageOf m.before.entries number.toNat size.toNat]).length =
      pages.length + 1 := List.length_append
  refine ⟨?_, ?_, ?_, ?_⟩
  · refine not_invalid_of_lt h.size_ne_zero hle ?_ m.before.ascending ?_
    · intro hzero
      rw [hzero] at hsucc
      simp at hsucc
    · rwa [hsucc, Nat.add_sub_cancel]
  · rw [hsucc, hlength, h.number_eq]
  · rw [h.numbered_concat, hlength]
  · rw [hlength]
    exact (h.reaches_concat hshown).cons n

/-- A client whose page has no next one has skipped nothing. -/
theorem AtPage.last (h : AtPage maxPageSize size number pages own) (hshown : Lengthening (m :: own))
    (hnone : (pageOf m.before.entries number.toNat size.toNat).hasNext = false) :
    ∃ first, (m :: own).getLast? = some first ∧ ∀ e ∈ first.before.entries,
      ∃ p ∈ pages ++ [pageOf m.before.entries number.toNat size.toNat], e ∈ p.items := by
  have hend : m.before.entries.length ≤ (pages.length + 1) * size.toNat := by
    rw [← h.number_eq]
    refine Nat.not_lt.mp fun hlt => ?_
    rw [(hasNext_iff h.size_pos _ _).mpr hlt] at hnone
    cases hnone
  exact ⟨_, List.getLast?_cons, (h.reaches_concat hshown).all hshown hend List.getLast?_cons⟩

/-- **A client beside writers skips nothing.**  It makes two calls for each page. -/
theorem walkPages_meets (h : AtPage maxPageSize size number pages own)
    (hroom : own.length + 2 * (maxSequence.toNat - number.toNat) + 2 ≤ bound) :
    (walkPages maxPageSize size number pages).Meets Lengthening bound SkipsNone i own := by
  induction number using ahead_induction maxSequence generalizing pages own with
  | step number ih =>
    rw [walkPages]
    refine (listPage_meets h.valid (by omega)).bind ?_
    rintro _ _ ⟨n, m, rfl, hshown, rfl⟩
    dsimp only
    split
    · rename_i hmore
      have hsucc := toNat_succ_of_lt hmore.2
      have hmax := UInt64.lt_iff_toNat_lt.mp hmore.2
      refine ih number (UInt64.le_refl number) hmore.2 (h.next hshown hmore.1 hmore.2 n) ?_
      rw [List.length_cons, List.length_cons]
      omega
    · rename_i hstop
      refine ⟨pages, _, rfl, h.numbered_concat _, ?_, ?_⟩
      · intro hmore
        have hnot : ¬number < maxSequence := fun hlt => hstop ⟨hmore, hlt⟩
        have hmax := UInt64.le_iff_toNat_le.mp (UInt64.not_lt.mp hnot)
        rw [← h.number_eq]
        exact Nat.le_antisymm (Nat.le_of_lt_succ number.toNat_lt) hmax
      · intro hnone
        rw [List.getLast?_cons_cons]
        exact h.last hshown hnone

end Query

end Turning

/-! ### The whole chain -/

/-- **Paging covers the chain.**  Whatever a store in memory holds, a page is refused just if its
number is zero, its size is zero or too large, or its offset is beyond all numbers; any other is what
the entries make it.  The pages of one size make up the chain as long as nothing comes in.  And a
client beside engines, in whatever order they are answered, skips nothing that was there at its
first read. -/
theorem paging_covers (m : MemoryStore) (maxPageSize : UInt64) :
    (∀ number size cancelled,
      (Query.Invalid maxPageSize number size → ∃ reason,
        (Query.listPage maxPageSize number size).run (Store.respond cancelled) m =
          (.ok (.error (.invalidPage reason)), m)) ∧
      (¬Query.Invalid maxPageSize number size →
        (Query.listPage maxPageSize number size).run (Store.respond cancelled) m =
          (.ok (.ok (Query.pageOf m.entries number.toNat size.toNat)), m))) ∧
    ∀ size, size ≠ 0 → size ≤ maxPageSize → Query.Paginates m maxPageSize size ∧
      ∀ (ι : Type) [DecidableEq ι] (policy : ι → RetryPolicy) (events : ι → List Event) h Q,
        Run Serves (beside m policy events (Query.walkPages maxPageSize size 1 [])) h Q →
        ReaderMeets (2 * maxSequence.toNat) Query.SkipsNone h Q := by
  constructor
  · intro number size cancelled
    constructor
    · intro hinvalid
      obtain ⟨reason, hreason⟩ := Query.listPage_of_invalid hinvalid
      refine ⟨reason, ?_⟩
      rw [hreason]
      rfl
    · intro hvalid
      exact Query.shows_of_valid hvalid m cancelled
  · intro size hsize hle
    refine ⟨Query.paginates m hsize hle, ?_⟩
    intro ι _ policy events h Q hrun
    have hreader := Query.walkPages_asks maxPageSize size 1 []
    have hshown : Lengthening (movesOf none h) :=
      hrun.lengthening (beside_appends hreader m policy events) none
    refine hrun.readerMeets_of (fun _ _ => Lengthening.of_cons) hshown
      (Query.walkPages_meets ⟨?_, rfl, rfl, ?_⟩ ?_) fun _ _ _ hresult => hresult
    · rintro (h | h | h | h)
      · cases h
      · exact hsize h
      · exact UInt64.not_lt.mpr hle h
      · simp at h
    · rw [List.length_nil, Nat.zero_mul]
      exact ReachesBack.start
    · rw [List.length_nil]
      decide

/-- A client that turns over the pages of a store whose entries are no chain, beside an engine. -/
def duringPaging : Pool ledger (Option Unit) MemoryStore
    (List (Except AuditError Outcome) ⊕ Except AuditError (List (Page Entry))) :=
  beside blemished (fun _ => {}) (fun _ => [.bare "late" "1"]) (Query.walkPages 10 2 1 [])

theorem paging_covers_blemished :
    Query.Invalid 10 0 2 ∧ ¬Query.Invalid 10 2 2 ∧ (2 : UInt64) ≠ 0 ∧ (2 : UInt64) ≤ 10 ∧
      (Query.listPage 10 2 2).run (Store.respond false) blemished =
        (.ok (.ok (Query.pageOf blemished.entries 2 2)), blemished) ∧
      (∃ reason, (Query.listPage 10 0 2).run (Store.respond false) blemished =
        (.ok (.error (.invalidPage reason)), blemished)) ∧
      (∃ pages, List.Forall₂ (Query.Shows blemished 10 2) [1, 2] pages ∧
        pages.flatMap Page.items = blemished.entries.reverse) ∧
      let P := duringPaging.play readerTurns
      (readerResult P.2).map (fun pages => pages.map fun p => p.items.map Entry.sequence) =
          some [[6, 4], [4, 3]] ∧
        ReaderMeets (2 * maxSequence.toNat) Query.SkipsNone P.1 P.2 := by
  have hinvalid : Query.Invalid 10 0 2 := .inl rfl
  have hvalid : ¬Query.Invalid 10 2 2 := by
    unfold Query.Invalid
    decide
  obtain ⟨hpage, hall⟩ := paging_covers blemished 10
  obtain ⟨hpaginates, hwalk⟩ := hall 2 (by decide) (by decide)
  refine ⟨hinvalid, hvalid, by decide, by decide, (hpage 2 2 false).2 hvalid,
    (hpage 0 2 false).1 hinvalid, hpaginates.covered [1, 2] (by decide +kernel),
    by decide +kernel, ?_⟩
  refine hwalk Unit (fun _ => {}) (fun _ => [.bare "late" "1"]) _ _ ?_
  have hserve : ∀ turn ∈ readerTurns, turn.2 = .serve false := by decide
  refine duringPaging.run_play_of readerTurns fun turn hturn r s => ?_
  rw [hserve turn hturn]
  exact ⟨false, rfl⟩

end AuditChain
