import MailserverUi.L4App.Instance

/-!
# Whose session a token is

A session token names an account by its username, and the account is looked up
again at every request. That tells accounts apart as long as a username is not
given to a new account while a token for it still counts (`Fresh`).

Results:
* `rows_effect`: an event renames no account, and a new one has a name that was
  free.
* `gone_run`: an account that is gone stays gone, whatever is created.
* `same_account`: in every run whose new accounts are `Fresh`, an unexpired
  token signs in the account it was issued to, and nobody when that is gone.
* `inherited_session`: in a run that reuses a name it signs in another account.
-/
namespace MailserverUi.L4.Sessions

open Py L2.Database L3 Auth UserService Oidc AccountSpec Requests RequestsSpec Instance

section
variable {τ : Type}

/-- Not expired at `now`. -/
def Live (now : Int) (tok : Issued τ) : Prop := now / 1000000 ≤ tok.expires

instance (now : Int) (tok : Issued τ) : Decidable (Live now tok) :=
  inferInstanceAs (Decidable (_ ≤ _))

variable (env : Env τ)

/-- The username an event makes an account under, where it is free. -/
def creates (s : State τ) : Event τ → Option Str
  | .request cred (.createUser payload (some _)) =>
    if Authorised env s.now cred s.db ∧ strip payload.username ≠ [] then
      some (strip payload.username)
    else none
  | .oidcCallback config claims => (oidcPrincipal config claims).map SessionUser.username
  | _ => none

/-- A new account takes no name that a token still counts for. -/
def Fresh (s : State τ) (e : Event τ) : Prop :=
  ∀ username ∈ creates env s e, (∀ u ∈ s.db.users.rows, u.username ≠ username) →
    ∀ tok ∈ s.issued, tok.username = username → ¬ Live s.now tok

instance (s : State τ) (e : Event τ) : Decidable (Fresh env s e) :=
  inferInstanceAs (Decidable (∀ username ∈ creates env s e, _ → ∀ tok ∈ s.issued, _))

/-! ## One event -/

/-- The accounts of `d'` are those of `d` under their names, next to new ones
under names that were free. -/
structure Grows (d d' : Db) (new : Option Str) : Prop where
  born : d.born ≤ d'.born
  rows : ∀ v ∈ d'.users, (∃ u ∈ d.users, u.username = v.username ∧ u.born = v.born) ∨
    d.born ≤ v.born ∧ v.username ∈ new ∧ ∀ u ∈ d.users, u.username ≠ v.username

theorem Grows.of_subset {d d' : Db} {new : Option Str} (hb : d'.born = d.born)
    (h : ∀ v ∈ d'.users, v ∈ d.users) : Grows d d' new :=
  ⟨hb.ge, fun v hv => .inl ⟨v, h v hv, rfl, rfl⟩⟩

theorem grows_insertUser {d d' : Db} {username displayName role provider : Str}
    {hash : Option Str} {u : UserRow}
    (hi : d.insertUser username displayName role provider hash = some (u, d')) :
    Grows d d' (some username) := by
  obtain ⟨rfl, hmem, -, -⟩ := insertUser_spec hi
  refine ⟨by rw [born_insertUser hi]; omega, fun v hv => ?_⟩
  rcases (hmem v).mp hv with hv | rfl
  · exact .inl ⟨v, hv, rfl, rfl⟩
  · refine .inr ⟨le_rfl, rfl, fun w hw hn => ?_⟩
    have hnone : d.insertUser username displayName role provider hash = none :=
      insertUser_eq_none.mpr ⟨w, hw, hn⟩
    rw [hi] at hnone
    cases hnone

theorem grows_updateUser {d : Db} {id : Int} {set : UserSet} {new : Option Str} :
    Grows d (d.updateUser id set) new := by
  refine ⟨le_rfl, fun v hv => .inl ?_⟩
  obtain ⟨u, hu, rfl⟩ := mem_updateUser.mp hv
  refine ⟨u, hu, ?_⟩
  split <;> exact ⟨rfl, rfl⟩

theorem grows_linked {d : Db} {groupId : Int} {userIds : List Int} {new : Option Str} :
    Grows d (linked d groupId userIds) new :=
  .of_subset linked_rows.1 fun _ hv => linked_rows.2.1 ▸ hv

variable {env}

theorem grows_done {d d' : Db} {req : Request} (hd : Done d req d') :
    Grows d d' (match req with
      | .createUser payload (some _) => some (strip payload.username)
      | _ => none) := by
  cases hd with
  | createUser _ hi => exact grows_insertUser hi
  | deleteUser => exact .of_subset rfl fun v hv => (Table.mem_filter.mp hv).1
  | setUserStatus => exact grows_updateUser
  | createGroup hi =>
    obtain ⟨t, ht, he⟩ := Option.map_eq_some_iff.mp hi
    cases he
    exact .of_subset rfl fun v hv => hv
  | updateGroup _ hi =>
    obtain ⟨t, ht, rfl⟩ := Option.map_eq_some_iff.mp hi
    exact .of_subset rfl fun v hv => hv
  | deleteGroup => exact .of_subset rfl fun v hv => hv
  | addUsersToGroup => exact grows_linked
  | addUserToGroup groupId userId =>
    change Grows d (linked d groupId [userId]) none
    exact grows_linked
  | removeUserFromGroup => exact .of_subset rfl fun v hv => hv

theorem rows_effect {s s' : State τ} {e : Event τ} (he : Effect env s e s') :
    Grows s.db s'.db (creates env s e) := by
  cases he with
  | unchanged => exact .of_subset rfl fun v hv => hv
  | wait => exact .of_subset rfl fun v hv => hv
  | login => exact .of_subset rfl fun v hv => hv
  | oidcNew hp hi =>
    rw [creates, hp]
    exact grows_insertUser hi
  | oidcOld => exact grows_updateUser
  | @request cred req pats d ha hd =>
    have hg := grows_done hd
    cases hd with
    | @createUser payload h u _ hne hi =>
      rw [creates, if_pos ⟨ha, hne⟩]
      exact ⟨hg.born, hg.rows⟩
    | _ => exact ⟨hg.born, hg.rows⟩

variable (env) in
/-- The token is one that a sign-in made. -/
def Signed (tok : Issued τ) : Prop :=
  ∃ now user, tok.token = sessionToken env now user ∧ tok.username = user.username ∧
    tok.expires = now / 1000000 + env.accessTokenExpireMinutes * 60

variable (env) in
/-- A sign-in names an account that is there. -/
structure Names (d : Db) (tok : Issued τ) : Prop where
  signed : Signed env tok
  row : ∃ u ∈ d.users, u.username = tok.username ∧ u.born = tok.born

/-- Tokens stay. -/
theorem issued_effect {s s' : State τ} {e : Event τ} (he : Effect env s e s') :
    (∀ tok ∈ s.issued, tok ∈ s'.issued) ∧
      ∀ tok ∈ s'.issued, tok ∈ s.issued ∨ Names env s'.db tok := by
  have hnew {d : Db} {user : SessionUser} {account u : UserRow} (hu : u ∈ d.users)
      (hn : u.username = user.username) (hb : u.born = account.born) :
      (∀ tok ∈ s.issued, tok ∈ issue env s.now user account :: s.issued) ∧
        ∀ tok ∈ issue env s.now user account :: s.issued,
          tok ∈ s.issued ∨ Names env d tok := by
    refine ⟨fun tok ht => List.mem_cons_of_mem _ ht, fun tok ht => ?_⟩
    rcases List.mem_cons.mp ht with rfl | ht
    · exact .inr ⟨⟨s.now, user, rfl, rfl, rfl⟩, u, hu, hn, hb⟩
    · exact .inl ht
  cases he with
  | unchanged => exact ⟨fun _ ht => ht, fun _ ht => .inl ht⟩
  | wait => exact ⟨fun _ ht => ht, fun _ ht => .inl ht⟩
  | login hu => exact hnew hu rfl rfl
  | oidcNew hp hi => exact hnew (((insertUser_spec hi).2.1 _).mpr (.inr rfl)) rfl rfl
  | @oidcOld config claims p u hp hu hn ho =>
    exact hnew (u := (oidcSet p).on u) (mem_updateUser.mpr ⟨u, hu, (if_pos rfl).symm⟩) rfl rfl
  | request => exact ⟨fun _ ht => ht, fun _ ht => .inl ht⟩

theorem now_effect {s s' : State τ} {e : Event τ} (he : Effect env s e s') : s.now ≤ s'.now := by
  cases he with
  | wait n => exact Int.le_add_of_nonneg_right (Int.natCast_nonneg n)
  | _ => exact le_rfl

/-! ## Tokens and accounts -/

variable (env) in
structure Inv (s : State τ) : Prop where
  signed : ∀ tok ∈ s.issued, Signed env tok
  born : ∀ tok ∈ s.issued, tok.born < s.db.born
  /-- the account with the name of an unexpired token is the one it was issued to -/
  row : ∀ tok ∈ s.issued, Live s.now tok →
    ∀ u ∈ s.db.users, u.username = tok.username → u.born = tok.born

theorem inv_effect {s s' : State τ} {e : Event τ} (he : Effect env s e s') (hf : Fresh env s e)
    (h : Inv env s) : Inv env s' := by
  obtain ⟨-, hnew⟩ := issued_effect he
  obtain ⟨hborn, hrows⟩ := rows_effect he
  refine ⟨fun tok ht => ?_, fun tok ht => ?_, fun tok ht hl v hv hn => ?_⟩
  · rcases hnew tok ht with ht | ht
    · exact h.signed tok ht
    · exact ht.signed
  · rcases hnew tok ht with ht | ⟨-, u, hu, -, hb⟩
    · exact (h.born tok ht).trans_le hborn
    · exact hb ▸ s'.db.born_lt u hu
  · rcases hnew tok ht with ht | ⟨-, u, hu, hun, hb⟩
    · have hlive : Live s.now tok :=
        (Int.ediv_le_ediv (by decide) (now_effect he)).trans hl
      rcases hrows v hv with ⟨u, hu, hun, hub⟩ | ⟨-, hc, hfree⟩
      · rw [← hub]
        exact h.row tok ht hlive u hu (hun.trans hn)
      · exact absurd hlive (hf v.username hc hfree tok ht hn.symm)
    · rw [← hb, Table.eq_of_key hv hu (hn.trans hun.symm)]

/-- No account has the ghost `n`, and none will. -/
def Gone (d : Db) (n : Nat) : Prop := n < d.born ∧ ∀ u ∈ d.users, u.born ≠ n

theorem gone_effect {s s' : State τ} {e : Event τ} (he : Effect env s e s') {n : Nat}
    (h : Gone s.db n) : Gone s'.db n := by
  obtain ⟨hborn, hrows⟩ := rows_effect he
  refine ⟨h.1.trans_le hborn, fun v hv => ?_⟩
  rcases hrows v hv with ⟨u, hu, -, hb⟩ | ⟨hb, -, -⟩
  · exact hb ▸ h.2 u hu
  · have := h.1
    omega

/-! ## Runs -/

/-- No sign-in yet, on any database. -/
def NoTokens (s : State τ) : Prop := s.issued = []

theorem fresh_inductive : ((events env NoTokens).guard (Fresh env)).Inductive (Inv env) where
  init s h := ⟨by simp [show s.issued = [] from h], by simp [show s.issued = [] from h],
    by simp [show s.issued = [] from h]⟩
  step s e s' h hs := by
    obtain ⟨hf, hs⟩ := hs
    cases hs
    exact inv_effect (effect_step env s e) hf h

/-- A run keeps tokens, and what is gone. -/
theorem gone_run {init : State τ → Prop} {s s' : State τ} {es : List (Event τ)}
    (hr : (events env init).Run s es s') :
    (∀ tok ∈ s.issued, tok ∈ s'.issued) ∧ ∀ n, Gone s.db n → Gone s'.db n := by
  induction hr with
  | nil => exact ⟨fun _ ht => ht, fun _ hg => hg⟩
  | cons hs _ ih =>
    cases hs
    exact ⟨fun tok ht => ih.1 tok ((issued_effect (effect_step env _ _)).1 tok ht),
      fun n hg => ih.2 n (gone_effect (effect_step env _ _) hg)⟩

/-- In every run that gives no new account a name a token still counts for: an
unexpired session token signs in the account row it was issued to and no other,
and nobody once that row is gone. -/
theorem same_account (hj : env.jose.Sound) {s s' : State τ} {es : List (Event τ)}
    (hs : ((events env NoTokens).guard (Fresh env)).Reachable s)
    (hr : ((events env NoTokens).guard (Fresh env)).Run s es s') {tok : Issued τ}
    (ht : tok ∈ s.issued) (hl : Live s'.now tok) (bearer : Option Str) :
    ∃ r, session (currentUserOptional env s'.now ⟨some tok.token, bearer⟩) s'.db =
        (.ok r, s'.db) ∧
      (∀ p, r = some p →
        ∃ u ∈ s'.db.users, u.born = tok.born ∧ u.isActive = true ∧ p = sessionUser s'.db u) ∧
      ((∀ u ∈ s.db.users, u.born ≠ tok.born) → r = none) := by
  have hinv := fresh_inductive.reachable s hs
  have hinv' := fresh_inductive.run hr hinv
  obtain ⟨hkeep, hgone⟩ := gone_run (LTS.guard_run hr)
  obtain ⟨now, user, htok, hname, hexp⟩ := hinv'.signed tok (hkeep tok ht)
  have hdec : decodeSessionToken env.jose (s'.now / 1000000) tok.token = some user := by
    rw [htok]
    exact decode_createSessionToken hj (hexp ▸ hl) user
  obtain ⟨r, hr, hp⟩ := run_currentUser_session env s'.now ⟨some tok.token, bearer⟩ s'.db rfl hdec
  have hrow : ∀ p, r = some p →
      ∃ u ∈ s'.db.users, u.born = tok.born ∧ u.isActive = true ∧ p = sessionUser s'.db u := by
    intro p hrp
    obtain ⟨u, hu, hun, ha, rfl⟩ := hp p hrp
    exact ⟨u, hu, hinv'.row tok (hkeep tok ht) hl u hu (hun.trans hname.symm), ha, rfl⟩
  refine ⟨r, session_of_run hr, hrow, fun hno => ?_⟩
  cases r with
  | none => rfl
  | some p =>
    obtain ⟨u, hu, hb, -, -⟩ := hrow p rfl
    exact absurd hb ((hgone tok.born ⟨hinv.born tok ht, hno⟩).2 u hu)

end

theorem sound_plainEnv : plainEnv.jose.Sound := fun _ _ hv => if_pos hv

/-- `bob` signs in, and is deleted. -/
def bobGone : List (Event Payload) :=
  withBob ++ [.login localOnly "bob".toList "password".toList,
    .request (cookie "admin" .admin) (.deleteUser 2)]

/-- The state has a token for `bob`, unexpired, whose account is gone. -/
def orphan (s : State Payload) : Option (Issued Payload) :=
  s.issued.find? fun tok => tok.username = "bob".toList ∧ Live s.now tok ∧
    ∀ u ∈ s.db.users.rows, u.born ≠ tok.born

theorem orphan_spec {s : State Payload} {tok : Issued Payload} (h : orphan s = some tok) :
    tok ∈ s.issued ∧ Live s.now tok ∧ ∀ u ∈ s.db.users, u.born ≠ tok.born := by
  have hp := List.find?_some h
  simp only [decide_eq_true_eq] at hp
  exact ⟨List.mem_of_find?_eq_some h, hp.2⟩

theorem same_account_bob :
    ∃ s, ((events plainEnv NoTokens).guard (Fresh plainEnv)).Reachable s ∧
      ∃ tok ∈ s.issued, Live s.now tok ∧ ∀ bearer,
        (session (currentUserOptional plainEnv s.now ⟨some tok.token, bearer⟩) s.db).1 =
          .ok none := by
  obtain ⟨s, hs, hp⟩ := LTS.guard_reachable_of_exec (f := fun s e => some (step plainEnv s e))
    (G := Fresh plainEnv) (I := NoTokens) (s := seeded) rfl bobGone
    (fun s => (orphan s).isSome) (by decide +kernel)
  obtain ⟨tok, htok⟩ := Option.isSome_iff_exists.mp hp
  obtain ⟨ht, hl, hgone⟩ := orphan_spec htok
  refine ⟨s, hs, tok, ht, hl, fun bearer => ?_⟩
  obtain ⟨r, hr, -, hnone⟩ := same_account sound_plainEnv hs (.nil s) ht hl bearer
  rw [hr, hnone hgone]

/-- `bob` is created again, by the administrator. -/
theorem inherited_session :
    ∃ s, (events plainEnv NoTokens).Reachable s ∧
      ∃ tok ∈ s.issued, Live s.now tok ∧ (∀ u ∈ s.db.users, u.born ≠ tok.born) ∧
        ∃ p, (session (currentUserOptional plainEnv s.now ⟨some tok.token, none⟩) s.db).1 =
          .ok (some p) := by
  obtain ⟨s, hs, hp⟩ := LTS.reachable_of_exec (f := fun s e => some (step plainEnv s e))
    (I := NoTokens) (s := seeded) rfl
    (bobGone ++ [.request (cookie "admin" .admin) (.createUser bob (some bob.password))])
    (fun s => (orphan s).any fun tok =>
      ((session (currentUserOptional plainEnv s.now ⟨some tok.token, none⟩) s.db).1.toOption.bind
        id).isSome) (by decide +kernel)
  obtain ⟨tok, htok, hsome⟩ := (Option.any_eq_true _ _).mp hp
  obtain ⟨ht, hl, hgone⟩ := orphan_spec htok
  refine ⟨s, hs, tok, ht, hl, hgone, ?_⟩
  generalize (session (currentUserOptional plainEnv s.now ⟨some tok.token, none⟩) s.db).1 = r
    at hsome ⊢
  match r, hsome with
  | .ok (some p), _ => exact ⟨p, rfl⟩

end MailserverUi.L4.Sessions
