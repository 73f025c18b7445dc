import MailserverUi.Core.Stale
import MailserverUi.L3Service.PatService
import MailserverUi.L3Service.References
import MailserverUi.L4App.Instance
import MailserverUi.L4App.Statements

/-!
# The limit on tokens, and concurrent callers

`pat_service.create` counts the tokens of the account, and inserts one more in a
later statement. A count is stale once another call has committed its insert.

Results:
* `within_exec`: an insert that finds room keeps the limit.
* `finds_room`: the insert of a call whose count is not stale finds room.
* `within_of_fresh`: so every interleaving in which no call inserts on a stale count
  keeps the limit.
* `one_too_many`: two callers can count before either inserts.
-/
namespace MailserverUi.L5.PatLimit

open Py L2.Errors L2.Database L3 PatService References L4 Statements

/-- How many tokens the account owns. -/
def owned (d : Db) (userId : Int) : Int := (d.patsOfUser userId).length

/-- An insert finds fewer tokens of its account than the limit. -/
def Room (patMaxPerUser : Int) : Sql → Db → Prop
  | .insertPat userId .., d => owned d userId < patMaxPerUser
  | _, _ => True

instance (patMaxPerUser : Int) (c : Sql) (d : Db) : Decidable (Room patMaxPerUser c d) :=
  decidable_of_bool (match c with
    | .insertPat userId .. => decide (owned d userId < patMaxPerUser)
    | _ => true) (by cases c <;> simp [Room])

/-- The statements of `create`. -/
def Issuing (userId : Int) : Sql → Prop
  | .insertPat id .. => id = userId
  | c => Quiet c

section
variable {d : Db} {userId patMaxPerUser : Int}

theorem owned_eq : owned d userId = (d.pats.rows.filter fun p => p.userId = userId).length := by
  rw [owned, Db.patsOfUser, List.length_insertionSort]

theorem owned_insertPat {name hint hash : Str} {createdAt : Int} {exp : Option Int} {p : PatRow}
    {d' : Db} (hi : d.insertPat userId name hint hash createdAt exp = some (p, d')) :
    owned d' userId = owned d userId + 1 := by
  obtain ⟨t, ht, e⟩ := Option.map_eq_some_iff.mp hi
  cases e
  have hrows : t.rows = d.pats.rows ++
      [⟨d.pats.nextId, userId, name, hint, hash, createdAt, exp, none⟩] := Table.insert_rows ht
  rw [owned_eq, owned_eq]
  simp only [hrows, List.filter_append, List.filter_cons, List.filter_nil, List.length_append,
    decide_true, if_true, List.length_singleton, Nat.cast_add, Nat.cast_one]

theorem owned_touchPat (id usedAt : Int) :
    owned (d.touchPat id usedAt) userId = owned d userId := by
  have hrows : (d.touchPat id usedAt).pats.rows.map PatRow.userId =
      d.pats.rows.map PatRow.userId :=
    Table.map_changed (f := fun p : PatRow => { p with lastUsedAt := some usedAt })
      (fun _ => rfl) d.pats.rows
  have hlen : ∀ l : List PatRow, (l.filter fun p => p.userId = userId).length =
      ((l.map PatRow.userId).filter fun n => n = userId).length := by
    intro l
    rw [List.filter_map, List.length_map]
    rfl
  rw [owned_eq, owned_eq, hlen, hlen, hrows]

/-- One statement. -/
theorem within_exec {c : Sql} (hc : Issuing userId c) (hr : Room patMaxPerUser c d)
    (h : owned d userId ≤ patMaxPerUser) : owned (c.exec d).2 userId ≤ patMaxPerUser := by
  cases c with
  | insertPat =>
    cases hc
    rw [Sql.exec]
    split
    · rename_i hi
      rw [owned_insertPat hi]
      exact hr
    · exact h
  | touchPat id usedAt => exact (owned_touchPat id usedAt).symm ▸ h
  | insertUser | updateUser | deleteUser | deleteMemberships | insertGroup | updateGroup
  | deleteGroup | deleteMembers | insertLink | deleteLink | deletePat | deletePats => cases hc
  | _ => exact h

end

/-! ## Interleavings -/

/-- A call counts the tokens of the account, and inserts one more. -/
def roles (ι : Type) (userId : Int) : Roles ι Sql where
  begins _ c := decide (c = .patsOfUser userId)
  rests
    | .insertPat .. => true
    | _ => false
  harms
    | .insertPat .. => true
    | _ => false

/-- One call for the account. -/
structure Call where
  now : Int
  secret : Secret
  name : Str
  expiresInDays : Option Nat

section
variable {ι : Type} [DecidableEq ι] (digest : Str → Str) (patMaxPerUser : Int) (user : UserRow)

def Call.prog (call : Call) : Query (PatRow × Str) :=
  create digest patMaxPerUser call.now call.secret user call.name call.expiresInDays

theorem issues_prog (call : Call) :
    (call.prog digest patMaxPerUser user).Issues (Issuing user.id) := by
  have hread {c : Sql} (hc : Issuing user.id c) : (execute c).Issues (Issuing user.id) :=
    Prog.issues_request hc
  refine Prog.issues_bind Prog.issues_raiseIf fun _ => ?_
  refine Prog.issues_bind (hread rfl) fun pats => ?_
  refine Prog.issues_bind Prog.issues_raiseIf fun _ => ?_
  refine Prog.issues_bind (hread rfl) fun o => ?_
  refine Prog.issues_bind Prog.issues_ofOption fun pat => ?_
  refine Prog.issues_bind (hread trivial) fun _ => ?_
  refine Prog.issues_bind (Prog.issues_bind (hread rfl) fun _ => Prog.issues_ofOption) fun _ => ?_
  trivial

abbrev Sessions (ι : Type) := Shared ι Sql Reply ApiError (PatRow × Str) Db

/-- All calls at their start. -/
def start (calls : ι → Call) (d : Db) : Sessions ι :=
  ⟨d, none, fun i => (calls i).prog digest patMaxPerUser user⟩

/-- The account is within the limit. -/
def Ready (calls : ι → Call) (s : Sessions ι) : Prop :=
  ∃ d, owned d user.id ≤ patMaxPerUser ∧ s = start digest patMaxPerUser user calls d

def race (calls : ι → Call) : LTS (Sessions ι) (Turn ι ApiError) :=
  Shared.lts statements Sql.kind (Ready digest patMaxPerUser user calls)

/-- The same, with what each call knows of its count. -/
def watched (calls : ι → Call) :
    LTS (Marked ι Sql Reply ApiError (PatRow × Str) Db) (Turn ι ApiError) :=
  Marked.lts statements Sql.kind (roles ι user.id) (Ready digest patMaxPerUser user calls)

variable {digest patMaxPerUser user}

theorem keeps_prog (call : Call) : (call.prog digest patMaxPerUser user).Keeps statements Sql.kind
    (fun d => owned d user.id ≤ patMaxPerUser) (Room patMaxPerUser) fun _ _ => True :=
  (issues_prog digest patMaxPerUser user call).keeps fun _ _ hc hd hr =>
    ⟨trivial, within_exec hc hr hd⟩

/-- Inserts that find room keep the limit. -/
theorem within_of_room {calls : ι → Call} {s : Sessions ι}
    (h : ((race digest patMaxPerUser user calls).guard
      (Shared.Meets (Room patMaxPerUser))).Reachable s) :
    owned s.committed user.id ≤ patMaxPerUser := by
  have hind : ((race digest patMaxPerUser user calls).guard
      (Shared.Meets (Room patMaxPerUser))).Inductive
        (Shared.Kept statements Sql.kind (fun d => owned d user.id ≤ patMaxPerUser)
          (Room patMaxPerUser) fun _ _ => True) := by
    refine Shared.kept_inductive ?_
    rintro s ⟨d, hd, rfl⟩
    exact Shared.kept_start hd fun i => keeps_prog (calls i)
  exact (hind.reachable s h).committed

/-! ## The count and the insert -/

/-- The account does not own more than before. -/
def Mild (userId : Int) (d d' : Db) : Prop := owned d' userId ≤ owned d userId

omit [DecidableEq ι] in
theorem mild_exec {userId : Int} {c : Sql} (hc : Issuing userId c)
    (hh : (roles ι userId).harms c = false) (d : Db) : Mild userId d (c.exec d).2 := by
  cases c with
  | insertPat => cases hh
  | touchPat id usedAt => exact (owned_touchPat id usedAt).le
  | insertUser | updateUser | deleteUser | deleteMemberships | insertGroup | updateGroup
  | deleteGroup | deleteMembers | insertLink | deleteLink | deletePat | deletePats => cases hc
  | _ => exact le_refl _

omit [DecidableEq ι] in
theorem setting : Marked.Setting statements (roles ι user.id) (Mild user.id)
    (Room patMaxPerUser) (Issuing user.id) where
  refl _ := le_refl _
  trans h₁ h₂ := le_trans h₂ h₁
  mild_exec c d hc hh := mild_exec hc hh d
  needs c d h := by
    cases c with
    | insertPat => cases h
    | _ => trivial

omit [DecidableEq ι] in
/-- Where the count of a call is not stale, its insert finds room. -/
theorem finds_room (call : Call) (i : ι) :
    (call.prog digest patMaxPerUser user).Checks statements Sql.kind
      (fun d => owned d user.id ≤ patMaxPerUser) (Mild user.id) (Room patMaxPerUser)
      ((roles ι user.id).begins i) (roles ι user.id).rests (fun _ _ _ => True) none none := by
  refine Prog.checks_raiseIf_bind fun _ d _ _ => ⟨fun h => (by cases h), ?_⟩
  -- the count has found the rows `d`, and the insert finds the rows `d'`
  refine Prog.checks_raiseIf_bind fun hroom d' _ hm => ⟨fun _ => ?_, Prog.checks_of_free ?_ _ _⟩
  · have hcount : owned d user.id < patMaxPerUser := not_le.mp hroom
    have hd' : Mild user.id d d' := hm d (if_pos (by simp [roles]))
    exact lt_of_le_of_lt hd' hcount
  · refine Prog.issues_bind trivial fun o => Prog.issues_bind Prog.issues_ofOption fun pat => ?_
    refine Prog.issues_bind (Prog.issues_request rfl) fun _ => ?_
    refine Prog.issues_bind (Prog.issues_bind (Prog.issues_request rfl) fun _ => ?_) fun _ => ?_
    · exact Prog.issues_ofOption
    · trivial

/-- In every interleaving, with calls failing anywhere, in which no call inserts
after another has committed its insert since the first one counted, the account
never owns more than the limit. -/
theorem within_of_fresh {calls : ι → Call} {s : Marked ι Sql Reply ApiError (PatRow × Str) Db}
    (h : ((watched digest patMaxPerUser user calls).guard
      (Marked.Fresh (roles ι user.id))).Reachable s) :
    owned s.shared.committed user.id ≤ patMaxPerUser := by
  refine within_of_room (Marked.meets_of_fresh (I := fun d => owned d user.id ≤ patMaxPerUser)
    (A := fun _ _ => True) setting ?_ h)
  rintro s ⟨d, hd, rfl⟩
  exact Marked.attentive_start hd (fun i => keeps_prog (calls i))
    (fun i => issues_prog digest patMaxPerUser user (calls i)) fun i => finds_room (calls i) i

end

/-! ### Two callers and a limit of one -/

/-- An account of the seeded database. -/
def owner : UserRow :=
  ⟨1, "admin".toList, "admin".toList, "admin".toList, "local".toList, true,
    some "secret".toList, 0⟩

theorem length_first : (List.replicate 43 'a').length = 43 := List.length_replicate

def twice : Bool → Call
  | false => ⟨0, ⟨List.replicate 43 'a', length_first, by simp⟩, "a".toList, none⟩
  | true => ⟨0, ⟨List.replicate 43 'b', rfl, by simp⟩, "b".toList, none⟩

def turns (n : Nat) (w : Bool) : List (Turn Bool ApiError) := List.replicate n (.exec w)

theorem ready_twice : Ready id 1 owner twice (start id 1 owner twice L4.Instance.seeded.db) :=
  ⟨_, by decide, rfl⟩

/-- The second caller counts after the first has inserted, and is refused. -/
theorem within_of_fresh_twice :
    ∃ s, ((watched id 1 owner twice).guard (Marked.Fresh (roles Bool owner.id))).Reachable s ∧
      (∀ w, (s.shared.prog w).isOver = true) ∧ owned s.shared.committed owner.id = 1 ∧
      owned s.shared.committed owner.id ≤ 1 := by
  obtain ⟨s, hs, hp⟩ := LTS.guard_reachable_of_exec (I := Marked.Begins (Ready id 1 owner twice))
    (f := Marked.step statements Sql.kind (roles Bool owner.id))
    (G := Marked.Fresh (roles Bool owner.id)) ⟨_, ready_twice, rfl⟩
    (turns 4 false ++ turns 1 true)
    (fun s => (∀ w, (s.shared.prog w).isOver = true) ∧ owned s.shared.committed owner.id = 1)
    (by decide +kernel)
  obtain ⟨hover, hone⟩ := of_decide_eq_true hp
  exact ⟨s, hs, hover, hone, within_of_fresh hs⟩

/-- Both count before either inserts. -/
theorem one_too_many :
    ∃ s, (race id 1 owner twice).Reachable s ∧ (∀ w, (s.prog w).isOver = true) ∧
      ¬ owned s.committed owner.id ≤ 1 := by
  obtain ⟨s, hs, hp⟩ := LTS.reachable_of_exec (f := Shared.step statements Sql.kind)
    ready_twice (turns 1 false ++ turns 1 true ++ turns 3 false ++ turns 3 true)
    (fun s => (∀ w, (s.prog w).isOver = true) ∧ ¬ owned s.committed owner.id ≤ 1)
    (by decide +kernel)
  exact ⟨s, hs, of_decide_eq_true hp⟩

end MailserverUi.L5.PatLimit
