import MailserverUi.L4App.DefaultAdmin
import MailserverUi.L4App.EffectiveRole
import MailserverUi.L4App.PasswordHistory

/-!
# The users page

`list_users` followed by `to_public_many`, which checks the length of every name
again. A row is there because a request named it, which the schema has checked,
or because an identity provider or the configuration did, which nothing has.

Results:
* `allFit_inductive`: rows keep fitting, as long as the names that are stored
  unchecked fit.
* `available_of_named`: in every state of such a run the users page, and the
  members page of any group, has a value for each account.
* `blank_unavailable`: one sign-in without claims, and the page is gone.
-/
namespace MailserverUi.L4.UserList

open Py L2.Errors L2.Database L3 Auth UserService Oidc AccountSpec Requests RequestsSpec Instance
open DefaultAdmin EffectiveRole PasswordHistory

/-! ## Changes -/

/-- An event of the instance, a call that gives an account its password, or a
start. -/
inductive Change (τ : Type) where
  | event (e : Event τ)
  | call (c : Call) (salt : Nat)
  | start (adminUsername hash : Str)

section
variable {τ : Type} (env : Env τ) (b : Bcrypt)

def next (s : Instance.State τ) : Change τ → Instance.State τ
  | .event e => Instance.step env s e
  | .call c salt => { s with db := (session (c.prog b salt) s.db).2 }
  | .start adminUsername hash =>
    { s with db := (session (ensureDefaultAdmin adminUsername (some hash)) s.db).2 }

def AllFit (s : Instance.State τ) : Prop := ∀ u ∈ s.db.users, Fits u

/-- The accounts that are there at the start fit. -/
def system : LTS (Instance.State τ) (Change τ) :=
  LTS.ofFn AllFit fun s c => some (next env b s c)

/-- The names that a change stores, and no request has checked: those of a
sign-in that is not refused, and of an administrator that is seeded. -/
inductive Stores (d : Db) : Change τ → Str → Str → Prop where
  | signIn {config : OidcSettings} {claims : Claims} {p : SessionUser}
      (hp : oidcPrincipal config claims = some p)
      (ha : ∀ u ∈ d.users, u.username = p.username →
        u.provider = "oidc".toList ∧ u.isActive = true) :
      Stores d (.event (.oidcCallback config claims)) p.username p.displayName
  | seed {adminUsername hash : Str} (hl : ¬ HasLocalAdmin d) (hf : NameFree d adminUsername) :
      Stores d (.start adminUsername hash) adminUsername adminUsername

/-- They have the lengths of the schema. -/
def Named (s : Instance.State τ) (c : Change τ) : Prop :=
  ∀ username displayName, Stores s.db c username displayName →
    1 ≤ username.length ∧ username.length ≤ 255 ∧ displayName.length ≤ 255

/-! ## One change -/

section
variable {d d' : Db}

theorem fits_insertUser (h : ∀ u ∈ d.users, Fits u) {username displayName role provider : Str}
    {hash : Option Str} {u : UserRow}
    (hi : d.insertUser username displayName role provider hash = some (u, d'))
    (hn : 1 ≤ username.length ∧ username.length ≤ 255 ∧ displayName.length ≤ 255) :
    ∀ v ∈ d'.users, Fits v := by
  obtain ⟨rfl, hmem, -, -⟩ := insertUser_spec hi
  intro v hv
  rcases (hmem v).mp hv with hv | rfl
  · exact h v hv
  · exact hn

theorem nameFree_of_insertUser {username displayName role provider : Str} {hash : Option Str}
    {u : UserRow} (hi : d.insertUser username displayName role provider hash = some (u, d')) :
    NameFree d username := fun v hv hn => by
  rw [insertUser_eq_none.mpr ⟨v, hv, hn⟩] at hi
  cases hi

/-- An update that sets a display name sets a short one. -/
theorem fits_updateUser (h : ∀ u ∈ d.users, Fits u) (id : Int) (set : UserSet)
    (hs : ∀ n, set.displayName = some n → n.length ≤ 255) :
    ∀ v ∈ (d.updateUser id set).users, Fits v := by
  intro v hv
  obtain ⟨u, hu, rfl⟩ := mem_updateUser.mp hv
  split
  · obtain ⟨hpos, hlen, hdisplay⟩ := h u hu
    refine ⟨hpos, hlen, ?_⟩
    change (set.displayName.getD u.displayName).length ≤ 255
    cases hset : set.displayName with
    | none => exact hdisplay
    | some n => exact hs n hset
  · exact h u hu

theorem fits_payload {payload : UserCreate} (hne : strip payload.username ≠ []) :
    1 ≤ (strip payload.username).length ∧ (strip payload.username).length ≤ 255 ∧
      (strip payload.displayName).length ≤ 255 :=
  ⟨List.length_pos_of_ne_nil hne, (length_strip_le _).trans payload.username_length.2,
    (length_strip_le _).trans payload.displayName_length⟩

/-- One case for each request: a request that makes an account has checked its
names. -/
theorem fits_done (h : ∀ u ∈ d.users, Fits u) {req : Request} (hd : Done d req d') :
    ∀ u ∈ d'.users, Fits u := by
  cases hd with
  | createUser hne hi => exact fits_insertUser h hi (fits_payload hne)
  | deleteUser hu hl => exact fun u hu => h u (Table.mem_filter.mp hu).1
  | setUserStatus hu hl => exact fits_updateUser h _ _ fun n hn => by cases hn
  | createGroup hi => rwa [(insertGroup_spec d hi).2.1]
  | updateGroup hg hi => rwa [(mem_updateGroup d hi).2.1]
  | deleteGroup hg => exact h
  | addUsersToGroup groupId userIds => rwa [linked_rows.2.1]
  | addUserToGroup groupId userId =>
    unfold Db.insertLink
    split <;> exact h
  | removeUserFromGroup groupId userId => exact h

theorem fits_given (h : ∀ u ∈ d.users, Fits u) {u : UserRow} {c : Call} {salt : Nat}
    (hg : Given b d d' u c salt) : ∀ v ∈ d'.users, Fits v := by
  intro v hv
  rcases hg.frame v hv with rfl | ⟨hold, -⟩
  · rcases hg.names with ⟨w, hw, hn, hdn⟩ | ⟨payload, rfl, hne, hn, hdn⟩
    · have hfit := h w hw
      unfold Fits at hfit ⊢
      rwa [← hn, ← hdn]
    · unfold Fits
      rw [hn, hdn]
      exact fits_payload hne
  · exact h v hold

end

theorem allFit_event {s : Instance.State τ} (h : AllFit s) (e : Event τ)
    (hn : Named s (.event e)) : AllFit (next env b s (.event e)) := by
  have heffect := effect_step env s e
  cases e with
  | oidcCallback config claims =>
    rcases oidcCallback_cases s.db config claims with
      ⟨r, hr, -⟩ | ⟨p, hp, ⟨u, d, hi, hr⟩ | ⟨u, hu, hname, ho, ha, hr⟩⟩
    · have hdb : (next env b s (.event (.oidcCallback config claims))).db = s.db :=
        congrArg Prod.snd hr
      rw [AllFit, hdb]
      exact h
    · have hdb : (next env b s (.event (.oidcCallback config claims))).db = d :=
        congrArg Prod.snd hr
      rw [AllFit, hdb]
      have hfree := nameFree_of_insertUser hi
      exact fits_insertUser h hi (hn _ _ (.signIn hp fun v hv e => absurd e (hfree v hv)))
    · have hdb : (next env b s (.event (.oidcCallback config claims))).db =
          s.db.updateUser u.id (oidcSet p) := congrArg Prod.snd hr
      rw [AllFit, hdb]
      refine fits_updateUser h _ _ fun n e => ?_
      cases e
      refine (hn _ _ (.signIn hp fun v hv e => ?_)).2.2
      rw [Table.eq_of_key hv hu (e.trans hname.symm)]
      exact ⟨ho, ha⟩
  | login config username password =>
    change AllFit (Instance.step env s _)
    generalize Instance.step env s (.login config username password) = s' at heffect
    cases heffect <;> exact h
  | request cred req =>
    change AllFit (Instance.step env s _)
    generalize Instance.step env s (.request cred req) = s' at heffect
    cases heffect with
    | unchanged => exact h
    | @request _ _ pats _ ha hd => exact fits_done (d := { s.db with pats := pats }) h hd
  | wait n => exact h

theorem allFit_next {s : Instance.State τ} (h : AllFit s) (c : Change τ) (hn : Named s c) :
    AllFit (next env b s c) := by
  cases c with
  | event e => exact allFit_event env b h e hn
  | call c salt =>
    rcases settles_prog b c salt s.db with ⟨e, w, hr⟩ | ⟨u, d', hr, hg⟩
    · have hdb : (next env b s (.call c salt)).db = s.db := congrArg Prod.snd (session_of_run hr)
      rw [AllFit, hdb]
      exact h
    · have hdb : (next env b s (.call c salt)).db = d' := congrArg Prod.snd (session_of_run hr)
      rw [AllFit, hdb]
      exact fits_given b h hg
  | start adminUsername hash =>
    rcases run_ensureDefaultAdmin adminUsername hash s.db with
      ⟨-, hr⟩ | ⟨-, -, hr⟩ | ⟨u, d', hl, hi, hr⟩
    · have hdb : (next env b s (.start adminUsername hash)).db = s.db := congrArg Prod.snd hr
      rw [AllFit, hdb]
      exact h
    · have hdb : (next env b s (.start adminUsername hash)).db = s.db := congrArg Prod.snd hr
      rw [AllFit, hdb]
      exact h
    · have hdb : (next env b s (.start adminUsername hash)).db = d' := congrArg Prod.snd hr
      rw [AllFit, hdb]
      exact fits_insertUser h hi (hn _ _ (.seed hl (nameFree_of_insertUser hi)))

theorem allFit_inductive : ((system env b).guard Named).Inductive AllFit where
  init := fun _ h => h
  step := fun s c s' h hst => by
    obtain ⟨hn, hs⟩ := hst
    cases hs
    exact allFit_next env b h c hn

end

/-! ## The pages -/

/-- The users page, and the members page of a group, whose members are accounts
in any number and order: each has a value for every account. -/
structure Available (d : Db) : Prop where
  users : ∃ us ps, (listUsers.run sqlite ⟨d, none⟩).1 = .ok us ∧ us.Perm d.users.rows ∧
    (session (listUsers >>= toPublicMany) d).1 = .ok ps ∧
    ps.map UserPublic.id = us.map UserRow.id
  members : ∀ us : List UserRow, (∀ u ∈ us, u ∈ d.users) →
    ∃ ps, (session (toPublicMany us) d).1 = .ok ps ∧ ps.map UserPublic.id = us.map UserRow.id

theorem available_of_fits {d : Db} (h : ∀ u ∈ d.users, Fits u) : Available d := by
  have hmembers : ∀ us : List UserRow, (∀ u ∈ us, u ∈ d.users) →
      (toPublicMany us).run sqlite ⟨d, none⟩ =
        (.ok (us.map fun u => .ofRow u (roleOf d u)), ⟨d, none⟩) := by
    intro us hus
    rw [run_toPublicMany_fits ⟨d, none⟩ fun u hu => id_ne_zero (hus u hu),
      if_pos fun u hu => h u (hus u hu)]
    rfl
  have hids (us : List UserRow) : (us.map fun u => UserPublic.ofRow u (roleOf d u)).map
      UserPublic.id = us.map UserRow.id := by
    rw [List.map_map]
    rfl
  constructor
  · have hperm := List.perm_insertionSort (fun u v : UserRow => u.username ≤ v.username)
      d.users.rows
    have hlist : listUsers.run sqlite ⟨d, none⟩ = (.ok (d.users.rows.insertionSort
        fun u v => u.username ≤ v.username), ⟨d, none⟩) := rfl
    refine ⟨_, _, congrArg Prod.fst hlist, hperm, ?_, hids _⟩
    have hrun := hmembers _ fun u hu => Table.mem_rows.mp (hperm.mem_iff.mp hu)
    refine congrArg Prod.fst (session_of_run (t := ⟨d, none⟩) ?_)
    rw [Prog.run_bind, hlist]
    exact hrun
  · intro us hus
    exact ⟨_, congrArg Prod.fst (session_of_run (hmembers us hus)), hids us⟩

/-- In every state of every run in which the names stored unchecked fit, the
pages are available. -/
theorem available_of_named {τ : Type} (env : Env τ) (b : Bcrypt) (s : Instance.State τ)
    (hr : ((system env b).guard Named).Reachable s) : Available s.db :=
  available_of_fits ((allFit_inductive env b).reachable s hr)

/-! ## A sign-in without claims -/

theorem fits_seeded : AllFit seeded := by
  have hrows : ∀ u ∈ seeded.db.users.rows, Fits u := by decide
  exact hrows

/-- The provider says who it is. -/
def eveClaims : Claims := fun claim =>
  if claim = "sub".toList then some (.text "eve".toList) else none

def eve : SessionUser := ⟨"eve".toList, "eve".toList, .guest, .oidc⟩

theorem named_eve (s : Instance.State Payload) :
    Named s (.event (.oidcCallback openOidc eveClaims)) := by
  intro username displayName h
  cases h with
  | signIn hp _ =>
    have he : oidcPrincipal openOidc eveClaims = some eve := by decide
    cases hp.symm.trans he
    decide

def withEve : Instance.State Payload :=
  next plainEnv plainBcrypt seeded (.event (.oidcCallback openOidc eveClaims))

theorem available_of_named_eve : Available withEve.db :=
  available_of_named plainEnv plainBcrypt withEve
    ⟨seeded, _, fits_seeded, .cons ⟨named_eve seeded, rfl⟩ (.nil _)⟩

def noClaims : Claims := fun _ => none

def blank : Instance.State Payload :=
  next plainEnv plainBcrypt seeded (.event (.oidcCallback openOidc noClaims))

/-- It is accepted, as an account without a name, and nobody is listed any more. -/
theorem blank_unavailable : (system plainEnv plainBcrypt).Reachable blank ∧
    (mapClaimsToUser openOidc noClaims).isSome = true ∧
    (session (listUsers >>= toPublicMany) blank.db).1 = .error .internal ∧
    ¬ Available blank.db := by
  have herr : (session (listUsers >>= toPublicMany) blank.db).1 = .error .internal := by
    decide +kernel
  refine ⟨⟨seeded, _, fits_seeded, .cons rfl (.nil _)⟩, by decide +kernel, herr, fun h => ?_⟩
  obtain ⟨us, ps, -, -, hps, -⟩ := h.users
  rw [herr] at hps
  cases hps

end MailserverUi.L4.UserList
