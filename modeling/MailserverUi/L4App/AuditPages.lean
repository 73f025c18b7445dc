import MailserverUi.Core.LTS
import MailserverUi.Core.Lists
import MailserverUi.L3Service.AuditService

/-!
# Reading the audit trail (`routers/audit.py`)

A client reads the trail page by page, and between two of its requests entries
may be added anywhere in the order. `Walk` is the client: what it has seen, the
next offset, and what was reported to it.

Results:
* `listAuditEntries_eq`: a page is answered when the offset is one that SQLite
  takes and each entry on it has the lengths that the schema allows.
* `rank_insert`: an entry only moves back when others are added.
* `inv_inductive`: what the client has not seen is still ahead of it.
* `walk_complete`: in every run, a client that has reached the latest total has
  seen every entry that was there, and without insertions the list itself.
-/
namespace MailserverUi.L4.AuditPages

open Py Paging L3 AuditService

/-! ## One page -/

/-- The lengths that `AuditLogPublic` allows.
mirrors backend/app/models/audit_models.py:28-44 -/
def Fits (r : AuditRow) : Prop :=
  r.actor.length ≤ 255 ∧ r.category.length ≤ 32 ∧ r.action.length ≤ 64 ∧
    r.target.length ≤ 255 ∧ r.status.length ≤ 16 ∧ r.detail.length ≤ 2000 ∧ r.ip.length ≤ 64

instance : DecidablePred Fits := fun _ => inferInstanceAs (Decidable (_ ∧ _))

/-- The fields of `AuditLogPublic` are those of the row.
mirrors backend/app/routers/audit.py:26-27 -/
def toPublic (entry : AuditRow) : Option AuditRow := if Fits entry then some entry else none

/-- The parameters that the endpoint accepts. -/
structure PageQuery extends Filters where
  limit : Int
  offset : Int
  actor_length : actor.length ≤ 255
  action_length : action.length ≤ 64
  category_length : category.length ≤ 32
  status_length : status.length ≤ 16
  limit_bounds : 1 ≤ limit ∧ limit ≤ maxPageSize
  offset_nonneg : 0 ≤ offset

/-- A page of the whole trail. -/
def PageQuery.unfiltered (limit : Int) (offset : Nat) (h : 1 ≤ limit ∧ limit ≤ maxPageSize) :
    PageQuery where
  actor := []
  action := []
  category := []
  status := []
  limit := limit
  offset := offset
  actor_length := Nat.zero_le _
  action_length := Nat.zero_le _
  category_length := Nat.zero_le _
  status_length := Nat.zero_le _
  limit_bounds := h
  offset_nonneg := Int.natCast_nonneg _

/-- The items and the total; `none` where the request raises.
mirrors backend/app/routers/audit.py:30-51 -/
def listAuditEntries (trail : AuditTable) (q : PageQuery) : Option (List AuditRow × Nat) := do
  let (entries, total) ← listEntries trail q.toFilters q.limit q.offset
  let items ← entries.mapM toPublic
  return (items, total)

/-- The entries that a request asks for. -/
def asked (trail : AuditTable) (q : PageQuery) : List AuditRow :=
  page q.offset.toNat q.limit.toNat (matching trail q.toFilters)

theorem listAuditEntries_eq (trail : AuditTable) (q : PageQuery) :
    listAuditEntries trail q =
      if q.offset ≤ maxInteger ∧ ∀ r ∈ asked trail q, Fits r then
        some (asked trail q, total trail q.toFilters)
      else none := by
  have hlimit : min (max q.limit 1) maxPageSize = q.limit := by
    have := q.limit_bounds
    omega
  unfold listAuditEntries listEntries
  rw [hlimit, max_eq_left q.offset_nonneg]
  by_cases ho : q.offset ≤ maxInteger
  · simp only [ho, if_true, true_and, Option.bind_eq_bind, Option.bind_some]
    change (List.mapM toPublic (asked trail q)).bind _ = _
    rw [mapM_ite (f := toPublic) (g := id) fun _ => rfl, List.map_id]
    split <;> rfl
  · simp only [ho, if_false, false_and, Option.bind_eq_bind, Option.bind_none]

theorem listAuditEntries_eq_some {trail : AuditTable} {q : PageQuery} {p : List AuditRow × Nat} :
    listAuditEntries trail q = some p ↔
      (q.offset ≤ maxInteger ∧ ∀ r ∈ asked trail q, Fits r) ∧
        p = (asked trail q, total trail q.toFilters) := by
  rw [listAuditEntries_eq, Option.ite_none_right_eq_some, Option.some.injEq, eq_comm (b := p)]

/-! ## Where an entry stands -/

section
variable {trail trail' : AuditTable} {f : Filters} {r x : AuditRow}

/-- How many of the entries that match are newer. -/
def position (trail : AuditTable) (f : Filters) (r : AuditRow) : Nat :=
  rank Newer r (trail.rows.filter f.admits)

theorem position_eq : position trail f r = rank Newer r (matching trail f) :=
  (rank_perm (matching_perm trail f)).symm

theorem position_lt_total (h : r ∈ trail) (ha : f.admits r = true) :
    position trail f r < total trail f :=
  rank_lt_length (List.mem_filter.mpr ⟨h, ha⟩) fun hn => newer_asymm hn hn

/-- An entry only moves back. -/
theorem rank_insert (h : trail.insert x = some trail') :
    position trail f r ≤ position trail' f r := by
  refine rank_mono (List.Sublist.filter _ ?_)
  rw [Table.insert_rows h]
  exact List.sublist_append_left _ _

theorem mem_asked {q : PageQuery} (h : r ∈ trail) (ha : q.admits r = true)
    (ho : q.offset ≤ position trail q.toFilters r)
    (hn : position trail q.toFilters r < q.offset + q.limit) : r ∈ asked trail q := by
  have hoffset := q.offset_nonneg
  have hlimit := q.limit_bounds
  refine mem_page (matching_sorted _ _) (fun _ => newer_asymm) (mem_matching.mpr ⟨h, ha⟩) ?_ ?_
  all_goals
    rw [← position_eq]
    omega

end

/-- A request for the one entry at its position. -/
def only (trail : AuditTable) (r : AuditRow) : PageQuery :=
  .unfiltered 1 (position trail ⟨[], [], [], []⟩ r) (by decide)

/-- An entry that does not fit takes a page of the trail with it. -/
theorem unanswered_of_mem {trail : AuditTable} {r : AuditRow} (h : r ∈ trail) (hf : ¬ Fits r) :
    (only trail r).offset < total trail (only trail r).toFilters ∧
      listAuditEntries trail (only trail r) = none := by
  have ha : (only trail r).admits r = true := by
    simp [only, PageQuery.unfiltered, Filters.admits]
  refine ⟨Int.ofNat_lt.mpr (position_lt_total h ha), ?_⟩
  rw [listAuditEntries_eq, if_neg]
  rintro ⟨-, hall⟩
  refine hf (hall r (mem_asked h ha ?_ ?_)) <;> simp [only, PageQuery.unfiltered]

/-! ## A client -/

/-- What was reported with a page, and ghost: the trail it was read from. -/
structure Report where
  total : Nat
  trail : AuditTable

structure Walk where
  trail : AuditTable
  /-- the next one -/
  offset : Int
  seen : List AuditRow
  /-- the latest first -/
  reports : List Report
  /-- ghost: the trail when the client started -/
  started : AuditTable
  /-- ghost: how many entries were added since -/
  inserted : Nat
  offset_nonneg : 0 ≤ offset

inductive Move where
  | insert (r : AuditRow)
  | request
  deriving DecidableEq, Repr

/-- The next offset has reached the latest total. -/
def Ended (s : Walk) : Prop := ∃ r, s.reports.head? = some r ∧ (r.total : Int) ≤ s.offset

instance (s : Walk) : Decidable (Ended s) :=
  match h : s.reports.head? with
  | none => isFalse fun ⟨r, hr, _⟩ => by rw [h] at hr; cases hr
  | some r => decidable_of_iff ((r.total : Int) ≤ s.offset) (by simp [Ended, h])

section
variable (q : PageQuery)

/-- The query at the next offset. -/
def Walk.query (s : Walk) : PageQuery :=
  { q with offset := s.offset, offset_nonneg := s.offset_nonneg }

/-- A request that raises leaves the client where it is. -/
def step (s : Walk) : Move → Option Walk
  | .insert r => (s.trail.insert r).map fun trail =>
    { s with trail := trail, inserted := s.inserted + 1 }
  | .request =>
    if Ended s then none
    else
      match listAuditEntries s.trail (s.query q) with
      | none => some s
      | some (items, total) => some { s with
          offset := s.offset + q.limit
          seen := s.seen ++ items
          reports := ⟨total, s.trail⟩ :: s.reports
          offset_nonneg := by
            have := s.offset_nonneg
            have := q.limit_bounds
            omega }

/-- Nothing is asked yet, and the trail is any one. -/
def Fresh (s : Walk) : Prop :=
  s.offset = 0 ∧ s.seen = [] ∧ s.reports = [] ∧ s.started = s.trail ∧ s.inserted = 0

def walks : LTS Walk Move := LTS.ofFn Fresh (step q)

/-- What a move does. -/
inductive Effect (s : Walk) : Move → Walk → Prop where
  | insert {r : AuditRow} {trail : AuditTable} (h : s.trail.insert r = some trail) :
      Effect s (.insert r) { s with trail := trail, inserted := s.inserted + 1 }
  | failed : Effect s .request s
  | answered {s' : Walk} (hn : ¬ Ended s) (ho : s'.offset = s.offset + q.limit)
      (hs : s'.seen = s.seen ++ asked s.trail (s.query q))
      (hr : s'.reports = ⟨total s.trail q.toFilters, s.trail⟩ :: s.reports)
      (ht : s'.trail = s.trail) (hst : s'.started = s.started) (hi : s'.inserted = s.inserted) :
      Effect s .request s'

variable {q}

theorem effect_step {s s' : Walk} {m : Move} (h : step q s m = some s') : Effect q s m s' := by
  cases m with
  | insert r =>
    obtain ⟨trail, hi, rfl⟩ := Option.map_eq_some_iff.mp h
    exact .insert hi
  | request =>
    simp only [step] at h
    split at h
    · cases h
    · rename_i hn
      split at h
      · cases h
        exact .failed
      · rename_i items n hp
        cases h
        have hp := (listAuditEntries_eq_some.mp hp).2
        have hitems : items = asked s.trail (s.query q) := congrArg Prod.fst hp
        have htotal : n = total s.trail q.toFilters := congrArg Prod.snd hp
        subst hitems htotal
        exact .answered hn rfl rfl rfl rfl rfl rfl

/-! ## Runs -/

/-- An entry that was there at the start is seen, or still ahead. -/
structure Inv (q : PageQuery) (s : Walk) : Prop where
  ahead : ∀ r ∈ s.started, q.admits r = true →
    r ∈ s.trail ∧ (r ∈ s.seen ∨ ¬ Ended s ∧ s.offset ≤ position s.trail q.toFilters r)
  steady : s.inserted = 0 →
    s.trail = s.started ∧ s.seen = (matching s.started q.toFilters).take s.offset.toNat
  ended : ∀ r, s.reports.head? = some r → s.inserted = 0 →
    r.total = total s.started q.toFilters
  reported : ∀ r ∈ s.reports, r.total = total r.trail q.toFilters

theorem inv_insert {s : Walk} {r : AuditRow} {trail : AuditTable}
    (h : s.trail.insert r = some trail) (hi : Inv q s) :
    Inv q { s with trail := trail, inserted := s.inserted + 1 } where
  ahead x hx ha := by
    obtain ⟨hm, hseen⟩ := hi.ahead x hx ha
    refine ⟨(Table.mem_insert h).mpr (.inl hm), hseen.imp_right fun ⟨hn, ho⟩ => ⟨hn, ho.trans ?_⟩⟩
    exact_mod_cast rank_insert h
  steady h0 := absurd h0 (Nat.succ_ne_zero _)
  ended _ _ h0 := absurd h0 (Nat.succ_ne_zero _)
  reported := hi.reported

theorem inv_answered {s s' : Walk} (h : Effect q s .request s') (hi : Inv q s) : Inv q s' := by
  cases h with
  | failed => exact hi
  | answered hn ho hs hr ht hst hins =>
    have hoffset := s.offset_nonneg
    have hlimit := q.limit_bounds
    refine ⟨fun r hm ha => ?_, fun h0 => ?_, fun _ hhead h0 => ?_, fun r hm => ?_⟩
    · rw [hst] at hm
      obtain ⟨hmem, hseen⟩ := hi.ahead r hm ha
      rw [ht, hs, ho]
      refine ⟨hmem, ?_⟩
      rcases hseen with hseen | ⟨-, hpos⟩
      · exact .inl (List.mem_append_left _ hseen)
      · by_cases hlt : (position s.trail q.toFilters r : Int) < s.offset + q.limit
        · exact .inl (List.mem_append_right _ (mem_asked (q := s.query q) hmem ha hpos hlt))
        · -- it lies beyond this page, and so does the end
          refine .inr ⟨?_, not_lt.mp hlt⟩
          rintro ⟨rep, hrep, hle⟩
          rw [hr, List.head?_cons, Option.some.injEq] at hrep
          subst hrep
          have := position_lt_total hmem ha
          rw [ho] at hle
          dsimp only at hle
          omega
    · rw [hins] at h0
      obtain ⟨htrail, hseen⟩ := hi.steady h0
      rw [ht, hst, hs, ho, hseen, asked, htrail, Int.toNat_add hoffset (by omega)]
      exact ⟨rfl, take_append_page _ _ _⟩
    · rw [hins] at h0
      rw [hr, List.head?_cons, Option.some.injEq] at hhead
      subst hhead
      rw [hst, ← (hi.steady h0).1]
    · rw [hr] at hm
      rcases List.mem_cons.mp hm with rfl | hm
      · rfl
      · exact hi.reported r hm

theorem inv_inductive : (walks q).Inductive (Inv q) where
  init s h := by
    obtain ⟨ho, hs, hr, hst, -⟩ := h
    refine ⟨fun r hm _ => ⟨hst ▸ hm, .inr ⟨?_, ?_⟩⟩, fun _ => ⟨hst.symm, ?_⟩, ?_, ?_⟩
    · rintro ⟨rep, hrep, -⟩
      rw [hr] at hrep
      cases hrep
    · rw [ho]
      exact Int.natCast_nonneg _
    · rw [hs, ho]
      rfl
    · intro _ hrep
      rw [hr] at hrep
      cases hrep
    · intro _ hm
      rw [hr] at hm
      cases hm
  step s m s' hi h := by
    have he := effect_step h
    cases m with
    | insert r =>
      cases he with
      | insert hins => exact inv_insert hins hi
    | request => exact inv_answered he hi

end

/-- The entries that match, each once, newest first. -/
structure Listing (trail : AuditTable) (f : Filters) (l : List AuditRow) : Prop where
  once : ∀ r ∈ trail, f.admits r = true → l.count r = 1
  only : ∀ r ∈ l, r ∈ trail ∧ f.admits r = true
  sorted : l.Pairwise Newer

theorem listing_matching (trail : AuditTable) (f : Filters) :
    Listing trail f (matching trail f) where
  once _ hr ha :=
    List.count_eq_one_of_mem (.of_map _ (matching_ids trail f)) (mem_matching.mpr ⟨hr, ha⟩)
  only _ hr := mem_matching.mp hr
  sorted := matching_sorted trail f

/-- A request for entries that fit is answered. -/
theorem exists_answer {s : Walk} (q : PageQuery) (ho : s.offset ≤ maxInteger)
    (hf : ∀ r ∈ s.trail, Fits r) : ∃ p, listAuditEntries s.trail (s.query q) = some p := by
  refine ⟨_, listAuditEntries_eq_some.mpr ⟨⟨ho, fun r hr => hf r ?_⟩, rfl⟩⟩
  have hm := List.mem_of_mem_drop (List.mem_of_mem_take hr)
  exact (mem_matching.mp hm).1

/-- In every run over any trail with any filters and page size, with entries added
at any point: every total is the number of matching entries at that moment; a
client that has reached the latest total has seen all that matched when it
started, and without insertions each of them once, newest first. Its requests are
answered as long as the entries fit. -/
theorem walk_complete (q : PageQuery) (s : Walk) (h : (walks q).Reachable s) :
    (∀ r ∈ s.reports, r.total = (r.trail.rows.filter q.admits).length) ∧
      (Ended s → ∀ r ∈ s.started, q.admits r = true → r ∈ s.seen) ∧
      (Ended s → s.inserted = 0 → Listing s.started q.toFilters s.seen) ∧
      (s.offset ≤ maxInteger → (∀ r ∈ s.trail, Fits r) →
        ∃ p, listAuditEntries s.trail (s.query q) = some p) := by
  have hi := inv_inductive.reachable s h
  refine ⟨hi.reported, fun he r hm ha => ?_, fun he h0 => ?_, exists_answer q⟩
  · exact (hi.ahead r hm ha).2.resolve_right fun hn => hn.1 he
  · obtain ⟨rep, hrep, hle⟩ := he
    have htotal := hi.ended rep hrep h0
    have hall : s.seen = matching s.started q.toFilters := by
      rw [(hi.steady h0).2, List.take_of_length_le]
      rw [length_matching, ← htotal]
      omega
    rw [hall]
    exact listing_matching _ _

/-- A sign-in, at an instant. -/
def signIn (now : Int) (trail : AuditTable) : AuditTable :=
  record trail true now none ⟨.auth, "auth.login", "bob".toList, "bob".toList, .success, []⟩

/-- Three sign-ins, two of them at the same instant. -/
def signIns : AuditTable := signIn 20 (signIn 10 (signIn 10 .empty))

/-- One entry a page, of the category `auth`. -/
def oneByOne : PageQuery where
  actor := []
  action := []
  category := "auth".toList
  status := []
  limit := 1
  offset := 0
  actor_length := by decide
  action_length := by decide
  category_length := by decide
  status_length := by decide
  limit_bounds := by decide
  offset_nonneg := le_rfl

/-- A fourth one comes in after the first page, and moves the others back. -/
theorem walk_complete_shifted : ∃ s, (walks oneByOne).Reachable s ∧ Ended s ∧
    s.seen.map AuditRow.id = [3, 3, 2, 1] ∧
    ∀ r ∈ s.started, oneByOne.admits r = true → r ∈ s.seen := by
  obtain ⟨s, hs, hp⟩ := LTS.reachable_of_exec (I := Fresh) (f := step oneByOne)
    (s := ⟨signIns, 0, [], [], signIns, 0, le_rfl⟩) ⟨rfl, rfl, rfl, rfl, rfl⟩
    [.request, .insert ⟨4, 30, "eve".toList, "auth".toList, [], [], [], [], []⟩, .request,
      .request, .request]
    (fun s => Ended s ∧ s.seen.map AuditRow.id = [3, 3, 2, 1]) (by decide +kernel)
  obtain ⟨he, hids⟩ := of_decide_eq_true hp
  exact ⟨s, hs, he, hids, (walk_complete oneByOne s hs).2.1 he⟩

end MailserverUi.L4.AuditPages
