import Mathlib.Data.Set.Basic

/-!
# Rows of named columns, and partial writes

A session that holds a copy of a row writes the columns that differ between the
row it read and the row it has made of it, and leaves the others to whoever wrote
them (`write`). A row may then be one that nobody has made.

Results:
* `write_self`: over the row that was read, a write leaves the row that was made.
* `Mixed.write`: a row of columns of some rows stays one.
-/
namespace MailserverUi

/-- A record as a function of its columns. -/
class Columnar (β : Type) where
  Column : Type
  Value : Column → Type
  decEq : ∀ k, DecidableEq (Value k)
  value : (k : Column) → β → Value k
  make : ((k : Column) → Value k) → β
  make_value : ∀ b, make (fun k => value k b) = b
  value_make : ∀ f k, value k (make f) = f k

namespace Columnar

variable {β : Type} [Columnar β] {a b c : β} {S T : Set β}

instance (k : Column β) : DecidableEq (Value k) := decEq k

@[ext]
theorem ext (h : ∀ k, value k a = value k b) : a = b := by
  rw [← make_value a, ← make_value b]
  exact congrArg make (funext h)

/-- `current`, after a session that read `loaded` has written `config`. -/
def write (loaded config current : β) : β :=
  make fun k => if value k config = value k loaded then value k current else value k config

theorem value_write (k : Column β) : value k (write a b c) =
    if value k b = value k a then value k c else value k b := by
  rw [write, value_make]

theorem write_self (a b : β) : write a b a = b := by
  refine ext fun k => ?_
  rw [value_write]
  split
  · rename_i h
    exact h.symm
  · rfl

/-- Each column is that of one of the rows. -/
def Mixed (S : Set β) (c : β) : Prop := ∀ k, ∃ b ∈ S, value k b = value k c

theorem Mixed.of_mem (h : b ∈ S) : Mixed S b := fun _ => ⟨b, h, rfl⟩

theorem Mixed.write (hb : b ∈ S) (hc : Mixed S c) : Mixed S (write a b c) := by
  intro k
  rw [value_write]
  split
  · exact hc k
  · exact ⟨b, hb, rfl⟩

end Columnar

end MailserverUi
