import MailserverUi.L3Service.AccountSpec

/-!
# References between the tables

Foreign keys are not enforced, so a token or a membership may outlive what it
refers to. `Intact` says that none does, and `Sql.Timely` that a statement that
inserts one finds what it refers to.

* `intact_exec`: a timely statement that deletes no account and no group keeps
  the references.
* `intact_deleteUser`, `intact_deleteGroup`: the deletions with their cascades.
* `Intact.new_account`: nothing refers to a new account.
-/
namespace MailserverUi.L3.References

open Py L2.Errors L2.Database Auth AccountSpec

/-- Every token has its account, and every membership its account and its group. -/
structure Intact (d : Db) : Prop where
  pats : ∀ p ∈ d.pats, ∃ u ∈ d.users, u.id = p.userId
  members : ∀ l ∈ d.links, ∃ u ∈ d.users, u.id = l.1
  groups : ∀ l ∈ d.links, ∃ g ∈ d.groups, g.id = l.2

instance (d : Db) : Decidable (Intact d) :=
  decidable_of_iff
    ((∀ p ∈ d.pats.rows, ∃ u ∈ d.users.rows, u.id = p.userId) ∧
      (∀ l ∈ d.links, ∃ u ∈ d.users.rows, u.id = l.1) ∧
      ∀ l ∈ d.links, ∃ g ∈ d.groups.rows, g.id = l.2)
    ⟨fun h => ⟨h.1, h.2.1, h.2.2⟩, fun h => ⟨h.pats, h.members, h.groups⟩⟩

/-- An insert finds what its row refers to. -/
def Timely : Sql → Db → Prop
  | .insertPat userId .., d => ∃ u ∈ d.users.rows, u.id = userId
  | .insertLink userId groupId, d =>
    (∃ u ∈ d.users.rows, u.id = userId) ∧ ∃ g ∈ d.groups.rows, g.id = groupId
  | _, _ => True

instance (c : Sql) (d : Db) : Decidable (Timely c d) := by
  unfold Timely
  split <;> infer_instance

/-- A statement that deletes neither accounts nor groups. -/
def Adds : Sql → Prop
  | .deleteUser _ | .deleteGroup _ => False
  | _ => True

section
variable {d : Db}

/-- No account or group goes, and no token or membership comes. -/
theorem Intact.of_subset {d' : Db} (h : Intact d) (hp : ∀ p ∈ d'.pats, p ∈ d.pats)
    (hl : ∀ l ∈ d'.links, l ∈ d.links)
    (hu : ∀ u ∈ d.users, ∃ v ∈ d'.users, v.id = u.id)
    (hg : ∀ g ∈ d.groups, ∃ r ∈ d'.groups, r.id = g.id) : Intact d' := by
  refine ⟨fun p hm => ?_, fun l hm => ?_, fun l hm => ?_⟩
  · obtain ⟨u, hm, e⟩ := h.pats p (hp p hm)
    obtain ⟨v, hv, e'⟩ := hu u hm
    exact ⟨v, hv, e'.trans e⟩
  · obtain ⟨u, hm, e⟩ := h.members l (hl l hm)
    obtain ⟨v, hv, e'⟩ := hu u hm
    exact ⟨v, hv, e'.trans e⟩
  · obtain ⟨g, hm, e⟩ := h.groups l (hl l hm)
    obtain ⟨r, hr, e'⟩ := hg g hm
    exact ⟨r, hr, e'.trans e⟩

theorem intact_insertUser {username displayName role provider : Str} {hash : Option Str}
    {u : UserRow} {d' : Db}
    (hi : d.insertUser username displayName role provider hash = some (u, d')) (h : Intact d) :
    Intact d' := by
  obtain ⟨-, hmem, hg, hl⟩ := insertUser_spec hi
  refine h.of_subset (fun _ hp => pats_insertUser hi ▸ hp) (fun _ hm => hl ▸ hm)
    (fun v hv => ⟨v, (hmem v).mpr (.inl hv), rfl⟩) fun g hm => ⟨g, hg.symm ▸ hm, rfl⟩

theorem intact_updateUser {id : Int} {set : UserSet} (h : Intact d) :
    Intact (d.updateUser id set) := by
  refine h.of_subset (fun p hp => hp) (fun l hl => hl) (fun u hu => ?_) fun g hg => ⟨g, hg, rfl⟩
  refine ⟨_, mem_updateUser.mpr ⟨u, hu, rfl⟩, ?_⟩
  split <;> rfl

theorem intact_insertGroup {name description role : Str} {g : GroupRow} {d' : Db}
    (hi : d.insertGroup name description role = some (g, d')) (h : Intact d) : Intact d' := by
  obtain ⟨t, ht, e⟩ := Option.map_eq_some_iff.mp hi
  cases e
  exact h.of_subset (fun p hp => hp) (fun l hl => hl) (fun u hu => ⟨u, hu, rfl⟩)
    fun r hr => ⟨r, (Table.mem_insert ht).mpr (.inl hr), rfl⟩

theorem intact_updateGroup {id : Int} {name description role : Str} {d' : Db}
    (hi : d.updateGroup id name description role = some d') (h : Intact d) : Intact d' := by
  obtain ⟨t, ht, rfl⟩ := Option.map_eq_some_iff.mp hi
  refine h.of_subset (fun p hp => hp) (fun l hl => hl) (fun u hu => ⟨u, hu, rfl⟩) fun r hr => ?_
  refine ⟨_, (Table.mem_modify ht).mpr ⟨r, hr, rfl⟩, ?_⟩
  split <;> rfl

theorem intact_deleteLinks {p : Int × Int → Bool} (h : Intact d) : Intact (d.deleteLinks p) :=
  h.of_subset (fun _ hp => hp) (fun _ hl => (List.mem_filter.mp hl).1)
    (fun u hu => ⟨u, hu, rfl⟩) fun g hg => ⟨g, hg, rfl⟩

theorem intact_insertLink {userId groupId : Int} (h : Intact d)
    (ht : Timely (.insertLink userId groupId) d) : Intact (d.insertLink userId groupId) := by
  unfold Db.insertLink
  split
  · exact h
  · refine ⟨h.pats, fun l hl => ?_, fun l hl => ?_⟩
    · rcases List.mem_append.mp hl with hl | hl
      · exact h.members l hl
      · rw [List.mem_singleton.mp hl]
        exact ht.1
    · rcases List.mem_append.mp hl with hl | hl
      · exact h.groups l hl
      · rw [List.mem_singleton.mp hl]
        exact ht.2

theorem mem_insertPat {userId : Int} {name hint hash : Str} {createdAt : Int} {exp : Option Int}
    {p : PatRow} {d' : Db} (hi : d.insertPat userId name hint hash createdAt exp = some (p, d')) :
    p = ⟨d.pats.nextId, userId, name, hint, hash, createdAt, exp, none⟩ ∧
      (∀ q, q ∈ d'.pats ↔ q ∈ d.pats ∨ q = p) ∧ d'.users = d.users ∧ d'.groups = d.groups ∧
      d'.links = d.links := by
  obtain ⟨t, ht, e⟩ := Option.map_eq_some_iff.mp hi
  cases e
  exact ⟨rfl, fun q => Table.mem_insert ht, rfl, rfl, rfl⟩

theorem intact_insertPat {userId : Int} {name hint hash : Str} {createdAt : Int}
    {exp : Option Int} {p : PatRow} {d' : Db}
    (hi : d.insertPat userId name hint hash createdAt exp = some (p, d')) (h : Intact d)
    (ht : ∃ u ∈ d.users, u.id = userId) : Intact d' := by
  obtain ⟨rfl, hmem, hu, hg, hl⟩ := mem_insertPat hi
  refine ⟨fun q hq => ?_, ?_, ?_⟩
  · rw [hu]
    rcases (hmem q).mp hq with hq | rfl
    · exact h.pats q hq
    · exact ht
  · rw [hu, hl]
    exact h.members
  · rw [hg, hl]
    exact h.groups

theorem intact_filterPats {q : PatRow → Bool} (h : Intact d) :
    Intact { d with pats := d.pats.filter q } :=
  h.of_subset (fun _ hp => (Table.mem_filter.mp hp).1) (fun _ hl => hl)
    (fun u hu => ⟨u, hu, rfl⟩) fun g hg => ⟨g, hg, rfl⟩

theorem mem_touchPat {id usedAt : Int} {p : PatRow} :
    p ∈ (d.touchPat id usedAt).pats ↔
      ∃ q ∈ d.pats, p = if q.id = id then { q with lastUsedAt := some usedAt } else q :=
  Table.mem_changed

theorem intact_touchPat {id usedAt : Int} (h : Intact d) : Intact (d.touchPat id usedAt) := by
  refine ⟨fun p hp => ?_, h.members, h.groups⟩
  obtain ⟨q, hq, rfl⟩ := mem_touchPat.mp hp
  obtain ⟨u, hu, e⟩ := h.pats q hq
  refine ⟨u, hu, e.trans ?_⟩
  split <;> rfl

/-- One statement that deletes nothing that is referred to. -/
theorem intact_exec {c : Sql} (hc : Adds c) (h : Intact d) (ht : Timely c d) :
    Intact (c.exec d).2 := by
  cases c with
  | insertUser =>
    rw [Sql.exec]
    split
    · exact intact_insertUser ‹_› h
    · exact h
  | insertGroup =>
    rw [Sql.exec]
    split
    · exact intact_insertGroup ‹_› h
    · exact h
  | updateGroup =>
    rw [Sql.exec]
    split
    · exact intact_updateGroup ‹_› h
    · exact h
  | insertPat =>
    rw [Sql.exec]
    split
    · exact intact_insertPat ‹_› h ht
    · exact h
  | updateUser => exact intact_updateUser h
  | insertLink => exact intact_insertLink h ht
  | deleteMemberships | deleteMembers | deleteLink => exact intact_deleteLinks h
  | deletePats | deletePat => exact intact_filterPats h
  | touchPat => exact intact_touchPat h
  | deleteUser | deleteGroup => exact hc.elim
  | _ => exact h

/-! ## Deletions -/

theorem intact_deleteUser (h : Intact d) (id : Int) :
    Intact (((d.deleteLinks fun l => l.1 = id).deletePats id).deleteUser id) := by
  have hkeep : ∀ n, n ≠ id → (∃ u ∈ d.users, u.id = n) →
      ∃ u ∈ (d.deleteUser id).users, u.id = n := by
    rintro _ hn ⟨u, hu, rfl⟩
    exact ⟨u, Table.mem_filter.mpr ⟨hu, by simpa using hn⟩, rfl⟩
  refine ⟨fun p hp => ?_, fun l hl => ?_, fun l hl => ?_⟩
  · obtain ⟨hp, hne⟩ := Table.mem_filter.mp hp
    exact hkeep _ (by simpa using hne) (h.pats p hp)
  · obtain ⟨hl, hne⟩ := List.mem_filter.mp hl
    exact hkeep _ (by simpa using hne) (h.members l hl)
  · exact h.groups l (List.mem_filter.mp hl).1

theorem intact_deleteGroup (h : Intact d) (id : Int) :
    Intact ((d.deleteLinks fun l => l.2 = id).deleteGroup id) := by
  refine ⟨h.pats, fun l hl => h.members l (List.mem_filter.mp hl).1, fun l hl => ?_⟩
  obtain ⟨hl, hne⟩ := List.mem_filter.mp hl
  obtain ⟨g, hg, e⟩ := h.groups l hl
  refine ⟨g, Table.mem_filter.mpr ⟨hg, ?_⟩, e⟩
  rw [e]
  simpa using hne

/-! ## A new account -/

/-- Nothing refers to an id that was free. -/
theorem Intact.unused (h : Intact d) {id : Int} (hid : ∀ u ∈ d.users, u.id ≠ id) :
    (∀ p ∈ d.pats, p.userId ≠ id) ∧ ∀ l ∈ d.links, l.1 ≠ id := by
  refine ⟨fun p hp e => ?_, fun l hl e => ?_⟩
  · obtain ⟨u, hu, e'⟩ := h.pats p hp
    exact hid u hu (e'.trans e)
  · obtain ⟨u, hu, e'⟩ := h.members l hl
    exact hid u hu (e'.trans e)

/-- An account that is inserted has the role of its row and owns no token. -/
theorem Intact.new_account (h : Intact d) {username displayName role provider : Str}
    {hash : Option Str} {u : UserRow} {d' : Db}
    (hi : d.insertUser username displayName role provider hash = some (u, d')) :
    roleOf d' u = normalizeRole role ∧ ∀ p ∈ d'.pats, p.userId ≠ u.id := by
  obtain ⟨rfl, -, -, hl⟩ := insertUser_spec hi
  have hfree : ∀ v ∈ d.users, v.id ≠ d.users.nextId := fun v hv => (Table.lt_nextId hv).ne
  obtain ⟨hpats, hlinks⟩ := h.unused hfree
  constructor
  · have hnone : granted d' d.users.nextId = [] := by
      refine List.eq_nil_iff_forall_not_mem.mpr fun r hr => ?_
      obtain ⟨groupId, hm, -⟩ := mem_granted.mp hr
      exact hlinks _ (hl ▸ hm) rfl
    rw [roleOf]
    change highestRole (role :: granted d' d.users.nextId) = _
    rw [hnone]
    cases h : normalizeRole role <;> simp [highestRole, h] <;> decide
  · rw [pats_insertUser hi]
    exact hpats

end

end MailserverUi.L3.References
