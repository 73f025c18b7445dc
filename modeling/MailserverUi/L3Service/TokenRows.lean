import MailserverUi.L3Service.References

/-!
# Which account owns which token

A token refers to its account by an id that SQLite hands out again. `Owned` looks
at the rows in a way that does not depend on ids: a digest, an expiry and the
`born` of the account.

* `Carried`: what a step that issues and revokes no token does to accounts and
  tokens; `carried_insertUser`, `carried_updateUser`, `carried_deleteUser`.
* `owned_carried`: it takes nothing away but the tokens of accounts that are gone.
* `owned_insertPat`, `owned_deletePat`: issuing and revoking.
-/
namespace MailserverUi.L3.TokenRows

open Py L2.Errors L2.Database AccountSpec References

/-- What a token is looked up and judged by. -/
def key (p : PatRow) : Int × Str × Option Int := (p.userId, p.tokenHash, p.expiresAt)

def keysOf (pats : Pats) : List (Int × Str × Option Int) := pats.rows.map key

/-- Every token has an account. -/
def NoOrphans (d : Db) : Prop := ∀ k ∈ keysOf d.pats, ∃ u ∈ d.users, u.id = k.1

/-- The account `born` owns a token with the digest and the expiry. -/
def Owned (d : Db) (hash : Str) (exp : Option Int) (born : Nat) : Prop :=
  ∃ u ∈ d.users, (u.id, hash, exp) ∈ keysOf d.pats ∧ u.born = born

theorem keysOf_touched {pats pats' : Pats} (h : Touched pats pats') :
    keysOf pats' = keysOf pats := by
  have hkey : ∀ t : Pats, keysOf t =
      (t.rows.map fun p => { p with lastUsedAt := none }).map key := by
    intro t
    rw [List.map_map]
    rfl
  rw [hkey, hkey, h]

/-! ## Steps that issue and revoke no token -/

/-- The accounts of `d'` are those of `d`, next to new ones under ids that were
free, and the tokens are those whose account is still there. -/
structure Carried (d d' : Db) : Prop where
  born : d.born ≤ d'.born
  users : ∀ v ∈ d'.users, (∃ u ∈ d.users, u.id = v.id ∧ u.born = v.born) ∨
    d.born ≤ v.born ∧ ∀ u ∈ d.users, u.id ≠ v.id
  pats : ∀ k, k ∈ keysOf d'.pats ↔ k ∈ keysOf d.pats ∧ ∃ v ∈ d'.users, v.id = k.1

section
variable {d d' : Db}

theorem Carried.noOrphans (h : Carried d d') : NoOrphans d' := fun k hk => ((h.pats k).mp hk).2

/-- An account that is there afterwards was there, if it was born before. -/
theorem Carried.old (h : Carried d d') {v : UserRow} (hv : v ∈ d'.users) (hb : v.born < d.born) :
    ∃ u ∈ d.users, u.id = v.id ∧ u.born = v.born := by
  rcases h.users v hv with hold | ⟨hnew, -⟩
  · exact hold
  · omega

theorem carried_of_rows (hu : d'.users = d.users) (hb : d'.born = d.born)
    (hk : keysOf d'.pats = keysOf d.pats) (hn : NoOrphans d) : Carried d d' where
  born := hb.ge
  users v hv := .inl ⟨v, hu ▸ hv, rfl, rfl⟩
  pats k := by
    rw [hk, hu]
    exact ⟨fun h => ⟨h, hn k h⟩, fun h => h.1⟩

/-- The last use of a token does not count. -/
theorem carried_touched {pats : Pats} (ht : Touched d.pats pats)
    (h : Carried { d with pats := pats } d') : Carried d d' where
  born := h.born
  users := h.users
  pats k := by
    rw [h.pats k, keysOf_touched ht]

theorem carried_insertUser {username displayName role provider : Str} {hash : Option Str}
    {u : UserRow} (hi : d.insertUser username displayName role provider hash = some (u, d'))
    (hn : NoOrphans d) : Carried d d' := by
  obtain ⟨rfl, hmem, -, -⟩ := insertUser_spec hi
  refine ⟨by rw [born_insertUser hi]; omega, fun v hv => ?_, fun k => ?_⟩
  · rcases (hmem v).mp hv with hv | rfl
    · exact .inl ⟨v, hv, rfl, rfl⟩
    · exact .inr ⟨le_rfl, fun w hw => (Table.lt_nextId hw).ne⟩
  · rw [pats_insertUser hi]
    refine ⟨fun h => ⟨h, ?_⟩, fun h => h.1⟩
    obtain ⟨w, hw, e⟩ := hn k h
    exact ⟨w, (hmem w).mpr (.inl hw), e⟩

theorem carried_updateUser (id : Int) (set : UserSet) (hn : NoOrphans d) :
    Carried d (d.updateUser id set) := by
  have hsame : ∀ u : UserRow, (if u.id = id then set.on u else u).id = u.id := by
    intro u
    split <;> rfl
  refine ⟨le_rfl, fun v hv => ?_, fun k => ⟨fun h => ⟨h, ?_⟩, fun h => h.1⟩⟩
  · obtain ⟨u, hu, rfl⟩ := mem_updateUser.mp hv
    exact .inl ⟨u, hu, (hsame u).symm, Db.born_set.symm⟩
  · obtain ⟨u, hu, e⟩ := hn k h
    exact ⟨_, mem_updateUser.mpr ⟨u, hu, rfl⟩, (hsame u).trans e⟩

theorem carried_deleteUser (id : Int) (hn : NoOrphans d) :
    Carried d (((d.deleteLinks fun l => l.1 = id).deletePats id).deleteUser id) := by
  have hmem : ∀ v, v ∈ (d.deleteUser id).users ↔ v ∈ d.users ∧ v.id ≠ id := by
    intro v
    refine Table.mem_filter.trans (and_congr_right fun _ => ?_)
    simp
  refine ⟨le_rfl, fun v hv => .inl ⟨v, ((hmem v).mp hv).1, rfl, rfl⟩, fun k => ?_⟩
  have hkeys : k ∈ keysOf (d.deletePats id).pats ↔ k ∈ keysOf d.pats ∧ k.1 ≠ id := by
    simp only [keysOf, List.mem_map, Table.mem_rows]
    constructor
    · rintro ⟨p, hp, rfl⟩
      obtain ⟨hp, hne⟩ := Table.mem_filter.mp hp
      exact ⟨⟨p, hp, rfl⟩, by simpa [key] using hne⟩
    · rintro ⟨⟨p, hp, rfl⟩, hne⟩
      exact ⟨p, Table.mem_filter.mpr ⟨hp, by simpa [key] using hne⟩, rfl⟩
  refine hkeys.trans (and_congr_right fun h => ?_)
  constructor
  · intro hne
    obtain ⟨u, hu, e⟩ := hn k h
    exact ⟨u, (hmem u).mpr ⟨hu, e.trans_ne hne⟩, e⟩
  · rintro ⟨v, hv, e⟩
    exact e ▸ ((hmem v).mp hv).2

/-- Tokens go with their accounts, and with nothing else. -/
theorem owned_carried (h : Carried d d') (hn : NoOrphans d) {hash : Str} {exp : Option Int}
    {b : Nat} : Owned d' hash exp b ↔ Owned d hash exp b ∧ ∃ v ∈ d'.users, v.born = b := by
  constructor
  · rintro ⟨v, hv, hk, rfl⟩
    obtain ⟨hkd, -⟩ := (h.pats _).mp hk
    refine ⟨?_, v, hv, rfl⟩
    rcases h.users v hv with ⟨u, hu, hid, hb⟩ | ⟨-, hfree⟩
    · exact ⟨u, hu, by rwa [hid], hb⟩
    · obtain ⟨u, hu, e⟩ := hn _ hkd
      exact absurd e (hfree u hu)
  · rintro ⟨⟨u, hu, hk, rfl⟩, v, hv, hb⟩
    obtain ⟨w, hw, hid, hb'⟩ := h.old hv (hb ▸ d.born_lt u hu)
    obtain rfl : w = u := d.born_inj w hw u hu (hb'.trans hb)
    exact ⟨v, hv, (h.pats _).mpr ⟨by rwa [← hid], v, hv, rfl⟩, hb⟩

end

/-! ## Issuing and revoking -/

section
variable {d d' : Db}

theorem keysOf_insertPat {userId : Int} {name hint hash : Str} {createdAt : Int}
    {exp : Option Int} {p : PatRow}
    (hi : d.insertPat userId name hint hash createdAt exp = some (p, d')) :
    ∀ k, k ∈ keysOf d'.pats ↔ k ∈ keysOf d.pats ∨ k = (userId, hash, exp) := by
  obtain ⟨t, ht, e⟩ := Option.map_eq_some_iff.mp hi
  cases e
  intro k
  rw [keysOf, Table.insert_rows ht, List.map_append, List.mem_append, List.map_singleton,
    List.mem_singleton]
  rfl

theorem owned_insertPat {u : UserRow} {name hint hash : Str} {createdAt : Int} {exp : Option Int}
    {p : PatRow} (hu : u ∈ d.users)
    (hi : d.insertPat u.id name hint hash createdAt exp = some (p, d')) {h : Str} {e : Option Int}
    {b : Nat} : Owned d' h e b ↔ Owned d h e b ∨ h = hash ∧ e = exp ∧ b = u.born := by
  obtain ⟨-, -, husers, -, -⟩ := mem_insertPat hi
  simp only [Owned, husers, keysOf_insertPat hi]
  constructor
  · rintro ⟨v, hv, hk | hk, rfl⟩
    · exact .inl ⟨v, hv, hk, rfl⟩
    · obtain ⟨hid, rfl, rfl⟩ : v.id = u.id ∧ h = hash ∧ e = exp := by simpa using hk
      obtain rfl := Table.eq_of_id hv hu hid
      exact .inr ⟨rfl, rfl, rfl⟩
  · rintro (⟨v, hv, hk, rfl⟩ | ⟨rfl, rfl, rfl⟩)
    · exact ⟨v, hv, .inl hk, rfl⟩
    · exact ⟨u, hu, .inr rfl, rfl⟩

/-- The digests tell the tokens apart. -/
theorem owned_deletePat {p : PatRow} (hp : p ∈ d.pats) {h : Str} {e : Option Int} {b : Nat} :
    Owned (d.deletePat p.id) h e b ↔ Owned d h e b ∧ h ≠ p.tokenHash := by
  have hkeys : ∀ k, k ∈ keysOf (d.deletePat p.id).pats ↔
      k ∈ keysOf d.pats ∧ k.2.1 ≠ p.tokenHash := by
    intro k
    simp only [keysOf, List.mem_map, Table.mem_rows]
    constructor
    · rintro ⟨q, hq, rfl⟩
      obtain ⟨hq, hne⟩ := Table.mem_filter.mp hq
      refine ⟨⟨q, hq, rfl⟩, fun e => ?_⟩
      rw [Table.eq_of_key hq hp e] at hne
      simp at hne
    · rintro ⟨⟨q, hq, rfl⟩, hne⟩
      refine ⟨q, Table.mem_filter.mpr ⟨hq, ?_⟩, rfl⟩
      simpa using fun e => hne (congrArg PatRow.tokenHash (Table.eq_of_id hq hp e))
  simp only [Owned, hkeys]
  constructor
  · rintro ⟨u, hu, ⟨hk, hne⟩, rfl⟩
    exact ⟨⟨u, hu, hk, rfl⟩, hne⟩
  · rintro ⟨⟨u, hu, hk, rfl⟩, hne⟩
    exact ⟨u, hu, ⟨hk, hne⟩, rfl⟩

end

end MailserverUi.L3.TokenRows
