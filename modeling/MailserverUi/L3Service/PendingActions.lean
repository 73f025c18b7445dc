import MailserverUi.Core.Dict
import MailserverUi.Core.Lists
import MailserverUi.Core.Text

/-!
# Pending actions (`pending_action_service.py`)

One row for each area of the configuration that waits for a restart, under a key
that the table keeps unique. Marking an area again refreshes its row.

The times of a row and the order it is listed in are left out, and so is a
database that refuses a row, which the service logs and swallows.
-/
namespace MailserverUi.L3.PendingActions

open Py

/-- The columns of a row next to its key.
mirrors backend/app/models/pending_action_models.py:24-31 -/
structure PendingAction where
  title : Str
  detail : Str
  deriving DecidableEq, Repr

/-- The table, by key. -/
abbrev Rows := Dict Str PendingAction

/-- mirrors backend/app/services/pending_action_service.py:25-48 -/
def markRestartRequired (t : Rows) (key title detail : Str) : Rows := t.set key ⟨title, detail⟩

/-- mirrors backend/app/services/pending_action_service.py:59-67 -/
def clear (t : Rows) (key : Str) : Rows := t.erase key

/-- mirrors backend/app/services/pending_action_service.py:70-75 -/
def clearAll (_ : Rows) : Rows := Dict.empty

/-! ## Reading the rows -/

/-- mirrors backend/app/models/pending_action_models.py:48-53 -/
structure PendingActionPublic where
  key : Str
  title : Str
  detail : Str
  deriving DecidableEq, Repr

/-- mirrors backend/app/models/pending_action_models.py:56-60 -/
structure PendingActionsSummary where
  items : List PendingActionPublic
  count : Nat
  deriving DecidableEq, Repr

/-- The lengths that the schema allows. -/
def Readable (p : Str × PendingAction) : Prop :=
  p.1.length ≤ 128 ∧ p.2.title.length ≤ 255 ∧ p.2.detail.length ≤ 500

instance (p : Str × PendingAction) : Decidable (Readable p) := inferInstanceAs (Decidable (_ ∧ _))

def PendingActionPublic.ofRow (p : Str × PendingAction) : PendingActionPublic :=
  ⟨p.1, p.2.title, p.2.detail⟩

/-- `PendingActionPublic.model_validate(item.model_dump())`. -/
def publicOf (p : Str × PendingAction) : Option PendingActionPublic :=
  if Readable p then some (.ofRow p) else none

/-- The rows come in the order they are listed in.
mirrors backend/app/services/pending_action_service.py:78-82 -/
def summary (items : List (Str × PendingAction)) : Option PendingActionsSummary :=
  (items.mapM publicOf).map fun shown => ⟨shown, shown.length⟩

theorem summary_eq (items : List (Str × PendingAction)) :
    summary items = if ∀ p ∈ items, Readable p then
      some ⟨items.map PendingActionPublic.ofRow, items.length⟩ else none := by
  rw [summary, mapM_ite (f := publicOf) (P := Readable) (g := PendingActionPublic.ofRow) fun _ => rfl]
  split
  · rw [Option.map_some, List.length_map]
  · rfl

/-! ## Keys and rows -/

theorem mem_keys_mark {t : Rows} {key title detail k : Str} :
    k ∈ (markRestartRequired t key title detail).keys ↔ k = key ∨ k ∈ t.keys :=
  Dict.mem_keys_put

/-- A row of the table afterwards is the one that was marked, or was there. -/
theorem mem_items_mark {t : Rows} {key title detail : Str} {p : Str × PendingAction} :
    p ∈ (markRestartRequired t key title detail).items ↔
      p = (key, ⟨title, detail⟩) ∨ p ∈ t.items ∧ p.1 ≠ key := by
  obtain ⟨k, v⟩ := p
  rw [Dict.mem_items, Dict.mem_items, markRestartRequired, Dict.get?_set]
  split
  · rename_i h
    simp [h, eq_comm]
  · rename_i h
    simp [h]

end MailserverUi.L3.PendingActions
