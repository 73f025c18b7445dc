import MailserverUi.Core.Paging
import MailserverUi.Core.Table
import MailserverUi.L2Store.Errors

/-!
# The audit trail (`audit_service.py`)

An entry is stored as it is handed to `record`, its detail cut to size: a table
class validates nothing, and SQLite enforces no length. A page is a query with
the filters, an order and an offset, and the number of entries that match is a
query of its own.

`sqlite3` takes no parameter over 64 bits. Instants are microseconds; the
notification of the mail connector is left out.

* `mem_record`: the entries after `record`.
* `mem_matching`, `matching_sorted`: what the pages are cut out of.
-/
namespace MailserverUi.L3.AuditService

open Py Paging

/-! ## Entries -/

/-- mirrors backend/app/models/audit_models.py:13-14 -/
inductive AuditStatus where
  | success
  | failure
  deriving DecidableEq, Repr

def AuditStatus.str : AuditStatus → Str
  | .success => "success".toList
  | .failure => "failure".toList

/-- mirrors backend/app/models/audit_models.py:16-18 -/
inductive AuditCategory where
  | auth
  | user
  | settings
  | pat
  | mailserver
  deriving DecidableEq, Repr

def AuditCategory.str : AuditCategory → Str
  | .auth => "auth".toList
  | .user => "user".toList
  | .settings => "settings".toList
  | .pat => "pat".toList
  | .mailserver => "mailserver".toList

/-- mirrors backend/app/models/audit_models.py:28-53 -/
structure AuditRow where
  id : Int
  createdAt : Int
  actor : Str
  category : Str
  action : Str
  target : Str
  status : Str
  detail : Str
  ip : Str
  deriving DecidableEq, Repr

/-- No column but the id is unique. -/
abbrev AuditTable := Table AuditRow Int AuditRow.id AuditRow.id

/-- What a caller passes to `record`, the request aside. -/
structure Entry where
  category : AuditCategory
  action : String
  actor : Str := "anonymous".toList
  target : Str := []
  status : AuditStatus := .success
  detail : Str := []
  deriving DecidableEq, Repr

/-- `AuditLog(...)`; `clientIp` is what `get_client_ip` returns. -/
def Entry.row (e : Entry) (clientIp : Option Str) (id now : Int) : AuditRow where
  id := id
  createdAt := now
  actor := if e.actor = [] then "anonymous".toList else e.actor
  category := e.category.str
  action := e.action.toList
  target := e.target
  status := e.status.str
  detail := e.detail.take 2000
  ip := clientIp.getD []

/-- The trail, with the entry if its commit succeeds.
mirrors backend/app/services/audit_service.py:32-62 -/
def record (trail : AuditTable) (commits : Bool) (now : Int) (clientIp : Option Str) (e : Entry) :
    AuditTable :=
  if commits then (trail.insert (e.row clientIp trail.nextId now)).getD trail else trail

/-! ## Queries -/

/-- mirrors backend/app/services/audit_service.py:25 -/
def maxPageSize : Int := 200

/-- The largest integer that `sqlite3` binds to a parameter. -/
def maxInteger : Int := 2 ^ 63 - 1

structure Filters where
  actor : Str
  action : Str
  category : Str
  status : Str
  deriving DecidableEq, Repr

/-- An empty filter is none. -/
def Filters.admits (f : Filters) (r : AuditRow) : Bool :=
  (f.actor = [] ∨ r.actor = f.actor) ∧ (f.action = [] ∨ r.action = f.action) ∧
    (f.category = [] ∨ r.category = f.category) ∧ (f.status = [] ∨ r.status = f.status)

/-- `ORDER BY created_at DESC, id DESC`. -/
def Newer (r r' : AuditRow) : Prop :=
  r'.createdAt < r.createdAt ∨ r'.createdAt = r.createdAt ∧ r'.id < r.id

instance : DecidableRel Newer := fun _ _ => inferInstanceAs (Decidable (_ ∨ _))

/-- The order with ties, as the sort compares. -/
def Sorts (r r' : AuditRow) : Prop := ¬ Newer r' r

instance : DecidableRel Sorts := fun _ _ => inferInstanceAs (Decidable (¬ _))

/-- The entries that match, in the order of the pages. -/
def matching (trail : AuditTable) (f : Filters) : List AuditRow :=
  (trail.rows.filter f.admits).insertionSort Sorts

/-- `SELECT count(*)` with the filters. -/
def total (trail : AuditTable) (f : Filters) : Nat := (trail.rows.filter f.admits).length

/-- A page and the total; `none` where SQLite refuses the offset.
mirrors backend/app/services/audit_service.py:78-115 -/
def listEntries (trail : AuditTable) (f : Filters) (limit offset : Int) :
    Option (List AuditRow × Nat) :=
  if max offset 0 ≤ maxInteger then
    some (page (max offset 0).toNat (min (max limit 1) maxPageSize).toNat (matching trail f),
      total trail f)
  else none

/-- mirrors backend/app/services/audit_service.py:118-135 -/
def purge (trail : AuditTable) (retentionDays now : Int) : AuditTable :=
  if retentionDays ≤ 0 then trail
  else trail.filter fun r => ¬ r.createdAt < now - retentionDays * 86400 * 1000000

/-! ## The order -/

theorem newer_asymm {r r' : AuditRow} (h : Newer r r') : ¬ Newer r' r := by
  unfold Newer at h ⊢
  omega

theorem newer_of_not {r r' : AuditRow} (h : ¬ Newer r r') (hne : r.id ≠ r'.id) : Newer r' r := by
  unfold Newer at h ⊢
  omega

instance : Std.Total Sorts where
  total r r' := by
    unfold Sorts Newer
    omega

instance : IsTrans AuditRow Sorts where
  trans r r' r'' h h' := by
    unfold Sorts Newer at h h' ⊢
    omega

section
variable (trail : AuditTable) (f : Filters)

theorem matching_perm : (matching trail f).Perm (trail.rows.filter f.admits) :=
  List.perm_insertionSort _ _

variable {trail f}

theorem mem_matching {r : AuditRow} : r ∈ matching trail f ↔ r ∈ trail ∧ f.admits r = true := by
  rw [(matching_perm trail f).mem_iff, List.mem_filter, Table.mem_rows]

variable (trail f)

theorem length_matching : (matching trail f).length = total trail f :=
  (matching_perm trail f).length_eq

theorem matching_ids : ((matching trail f).map AuditRow.id).Nodup :=
  ((matching_perm trail f).map _).nodup_iff.mpr ((List.filter_sublist.map _).nodup trail.ids)

/-- Newest first, and no two entries tie. -/
theorem matching_sorted : (matching trail f).Pairwise Newer := by
  have hs : (matching trail f).Pairwise Sorts := List.pairwise_insertionSort _ _
  have hids : (matching trail f).Pairwise fun r r' => r.id ≠ r'.id :=
    List.pairwise_map.mp (matching_ids trail f)
  exact (hs.and hids).imp fun h => newer_of_not h.1 h.2.symm

end

/-! ## What is written -/

/-- The next id is free. -/
theorem insert_nextId (trail : AuditTable) {r : AuditRow} (h : r.id = trail.nextId) :
    ∃ trail', trail.insert r = some trail' := by
  cases hi : trail.insert r with
  | some trail' => exact ⟨trail', rfl⟩
  | none =>
    obtain ⟨x, hx, e⟩ := (Table.insert_nextId h).mp hi
    have := Table.lt_nextId hx
    omega

section
variable (trail : AuditTable) (now : Int) (clientIp : Option Str) (e : Entry)

theorem record_rows : (record trail true now clientIp e).rows =
    trail.rows ++ [e.row clientIp trail.nextId now] := by
  obtain ⟨trail', h⟩ := insert_nextId trail (r := e.row clientIp trail.nextId now) rfl
  rw [record, if_pos rfl, h]
  exact Table.insert_rows h

theorem mem_record {commits : Bool} {r : AuditRow} :
    r ∈ record trail commits now clientIp e ↔
      r ∈ trail ∨ commits = true ∧ r = e.row clientIp trail.nextId now := by
  cases commits with
  | false => simp [record]
  | true => rw [← Table.mem_rows, record_rows]; simp [Table.mem_rows]

end

theorem mem_purge {trail : AuditTable} {retentionDays now : Int} {r : AuditRow}
    (h : r ∈ purge trail retentionDays now) : r ∈ trail := by
  unfold purge at h
  split at h
  · exact h
  · exact (Table.mem_filter.mp h).1

end MailserverUi.L3.AuditService
