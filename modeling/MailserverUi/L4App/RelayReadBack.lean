import MailserverUi.L3Service.RelaySpec

/-!
# Relays, written and read back

A relay is a sender, a host and a port in one file and a username in another.
Of the four texts only the sender is looked at, and only for an `@`.

Results:
* `created_iff`: the next list is the earlier one with the returned relay in its
  place exactly when the texts are `Storable`.
* `bracketed_host`: a host in the notation of the file is read as another one.
* `deleted_alone`: a deletion takes away one relay and its credentials, and
  nothing else, from a file whose targets have one of the three shapes.
-/
namespace MailserverUi.L4.RelayReadBack

open Py L1.MailFiles L1.ServerFiles L1.ConfigText L1.Relays L2.Errors L2.Container
open L3.MailserverService L3.RelaySpec

/-! ## What may be stored -/

section
variable (s : Files) (payload : RelayHostCreate)

/-- The username that a sender should have afterwards. -/
def expected (x : Str) : Str :=
  if x = senderOf payload then loginOf payload else usernameOf (creds s) x

/-- The new relay, and the earlier ones. -/
def IsListed (x : Str) : Prop :=
  x = senderOf payload ∨ ∃ d t, relays s = some d ∧ d.get? x = some (some t)

/-- What stands behind the first line of the password names no other username
for a relay, unless a line behind it names the right one again. -/
def Harmless : Prop :=
  ∀ x login, IsListed s payload x → (injected (payload.password.getD [])).get? x = some login →
    login.1 = expected s payload x ∨ senderOf payload < x ∧ expected s payload x ≠ []

/-- Without a username none is left over from before. -/
def LoginOk : Prop :=
  if loginOf payload = [] then usernameOf (creds s) (senderOf payload) = []
  else ':' ∉ loginOf payload ∧ OneLine (loginOf payload) ∧ Harmless s payload

/-- No relay has a host with the bracket that ends it. -/
def PlainHosts : Prop := ∀ d, relays s = some d → ∀ k target, d.get? k = some target → Plain target

structure Storable : Prop where
  sender : NoSpace (senderOf payload) ∧ (senderOf payload).head? ≠ some '#'
  host : hostOf payload ≠ [] ∧ NoSpace (hostOf payload) ∧ ']' ∉ hostOf payload
  others : PlainHosts s
  login : LoginOk s payload

end

/-- A password of one line. -/
theorem harmless_of_oneLine {s : Files} {payload : RelayHostCreate}
    (h : OneLine (payload.password.getD [])) : Harmless s payload := by
  intro x login _ hl
  rw [injected, afterBreak_oneLine h] at hl
  cases hl

instance (target : Target) : Decidable (Plain target) :=
  decidable_of_iff (∀ t ∈ target, ']' ∉ t.1) Iff.rfl

theorem plainHosts_iff {s : Files} :
    PlainHosts s ↔ ∀ d ∈ relays s, ∀ p ∈ d.items, Plain p.2 :=
  ⟨fun h d hd p hp => h d hd p.1 p.2 (Dict.mem_items.mp hp),
    fun h d hd k target hk => h d hd (k, target) (Dict.mem_items.mpr hk)⟩

/-- The list after the call is the one before it with `r` in its place, and the
exclusions are the same. -/
structure ReadsBack (r : RelayHost) (s s' : Files) : Prop where
  relays : ∃ before after, listRelays.run box s = (.ok before, s) ∧
    listRelays.run box s' = (.ok after, s') ∧ Inserted RelayHost.sender r before after
  exclusions : (listRelayExclusions.run box s').1 = (listRelayExclusions.run box s).1

/-! ## The relay map -/

section
variable {s : Files} {d : Dict Str Target} {k : Str} {t : Str × Nat} {u pw : Str}

theorem relays_created : relays (created s d k t u pw) =
    relaysOf (textLines (managed (relayLines (d.set k (some t))))) := by
  unfold created
  dsimp only
  split
  · exact relays_putRelays
  · rw [relays_putCreds, relays_putRelays]

theorem mem_items_set {p : Str × Target} (h : p ∈ (d.set k (some t)).items) :
    p = (k, some t) ∨ p ∈ d.items := by
  have hg := Dict.mem_items.mp h
  rw [Dict.get?_set] at hg
  split at hg
  · rename_i hk
    exact .inl (Prod.ext hk (Option.some.inj hg).symm)
  · exact .inr (Dict.mem_items.mpr hg)

theorem isRelay_set (hd : relays s = some d) (hk : IsAddress k) (ht : IsTarget t) :
    ∀ p ∈ (d.set k (some t)).items, IsRelay p := by
  intro p hp
  rcases mem_items_set hp with rfl | hp
  · refine ⟨hk, fun v hv => ?_⟩
    cases hv
    exact ht
  · exact isRelay_of_relays hd p hp

/-- The written relay map is read back. -/
theorem exists_relays_created (hd : relays s = some d) (hk : IsAddress k) (ht : IsTarget t)
    (hb : ']' ∉ t.1) (hall : PlainHosts s) :
    ∃ d', relays (created s d k t u pw) = some d' ∧
      ∀ x, d'.get? x = (d.set k (some t)).get? x := by
  rw [relays_created]
  refine get?_relaysOf_written fun p hp => ⟨isRelay_set hd hk ht p hp, ?_⟩
  rcases mem_items_set hp with rfl | hp
  · intro v hv
    cases hv
    exact hb
  · exact hall d hd p.1 p.2 (Dict.mem_items.mp hp)

/-- What is read back was fit to be written. -/
theorem storable_of_relays {d' : Dict Str Target} (hd : relays s = some d)
    (hd' : relays (created s d k t u pw) = some d') (hk : d'.get? k = some (some t))
    (h : ∀ x v, d.get? x = some (some v) → d'.get? x = some (some v)) :
    IsAddress k ∧ IsTarget t ∧ ']' ∉ t.1 ∧ PlainHosts s := by
  have hr : IsRelay (k, some t) := isRelay_of_relays hd' _ (Dict.mem_items.mpr hk)
  have ht := hr.target t rfl
  rw [relays_created] at hd'
  have hall := isRelay_set hd hr.sender ht
  refine ⟨hr.sender, ht, (plain_of_written hall hd' hk).2 t rfl, fun e he x target hx v hv => ?_⟩
  cases hd.symm.trans he
  subst hv
  exact (plain_of_written hall hd' (h x v hx)).2 v rfl

end

/-! ## The credentials -/

section
variable {s : Files} {d : Dict Str Target} {payload : RelayHostCreate} {t : Str × Nat} {x : Str}

theorem usernameOf_usable (c : Dict Str (Str × Str)) (x : Str) :
    usernameOf (usable c) x = usernameOf c x := by
  unfold usernameOf
  rw [usable, Dict.get?_filterVal]
  cases c.get? x with
  | none => rfl
  | some login =>
    by_cases h : login.1 = [] <;> simp [Option.filter, h]

theorem isAddress_senderOf (h : NoSpace (senderOf payload)) (hh : (senderOf payload).head? ≠ some '#')
    (hat : '@' ∈ senderOf payload) : IsAddress (senderOf payload) where
  ne := List.ne_nil_of_mem hat
  noSpace := h
  low _ hc := (mem_lower hc).1
  head := hh

theorem isTarget_hostOf (h₁ : hostOf payload ≠ []) (h₂ : NoSpace (hostOf payload)) :
    IsTarget (hostOf payload, payload.port) where
  ne := h₁
  noSpace := h₂
  port := by
    have := payload.port_range.2
    have h : 65535 < 10 ^ maxStrDigits :=
      Nat.lt_of_lt_of_le (by decide : 65535 < 10 ^ 5) (Nat.pow_le_pow_right (by decide) (by decide))
    omega

theorem creds_created (h : loginOf payload ≠ []) :
    creds (created s d (senderOf payload) t (loginOf payload) (payload.password.getD [])) =
      credsOf (textLines (managed (saslLines
        ((creds s).set (senderOf payload) (loginOf payload, payload.password.getD []))))) := by
  unfold created
  dsimp only
  rw [if_neg h, creds_putCreds]

theorem creds_created_of_nil {pw : Str} : creds (created s d x t [] pw) = creds s := by
  unfold created
  dsimp only
  rw [if_pos rfl, creds_putRelays]

/-- The username of a sender is the expected one unless the password names
another. -/
theorem username_written_iff (hk : IsAddress (senderOf payload)) (hne : loginOf payload ≠ [])
    (hc : ':' ∉ loginOf payload) (ho : OneLine (loginOf payload)) (x : Str) :
    usernameOf (creds (created s d (senderOf payload) t (loginOf payload)
        (payload.password.getD []))) x = expected s payload x ↔
      ∀ login, (injected (payload.password.getD [])).get? x = some login →
        login.1 = expected s payload x ∨ senderOf payload < x ∧ expected s payload x ≠ [] := by
  have ht : Trim (loginOf payload) := trim_strip _
  obtain ⟨w, hw⟩ := get?_credsOf_password (isCred_of_creds (s := s)) hk ht ho hne hc
    (payload.password.getD [])
  rw [creds_created hne, usernameOf, hw]
  by_cases hx : senderOf payload < x
  · have e : expected s payload x = ((usable (creds s)).get? x |>.getD ([], [])).1 := by
      rw [expected, if_neg hx.ne', ← usernameOf_usable]
      rfl
    rw [if_pos hx, e]
    cases hu : (usable (creds s)).get? x with
    | none =>
      cases (injected (payload.password.getD [])).get? x <;> simp
    | some login =>
      have hn : login.1 ≠ [] := (mem_usable.mp (Dict.mem_items.mpr hu)).2
      simp [hx, hn]
  · have e : expected s payload x =
        ((if x = senderOf payload then some (loginOf payload, w) else (usable (creds s)).get? x).getD
          ([], [])).1 := by
      rw [expected]
      split
      · rfl
      · rw [← usernameOf_usable]
        rfl
    rw [if_neg hx, e]
    cases (injected (payload.password.getD [])).get? x <;> simp [hx]

/-- The usernames are those that were expected exactly when the login is in
order. -/
theorem usernames_iff (hd : relays s = some d) (hk : IsAddress (senderOf payload))
    (hlogin : loginOf payload ≠ [] → ':' ∉ loginOf payload ∧ OneLine (loginOf payload)) :
    (∀ x v, (d.set (senderOf payload) (some t)).get? x = some (some v) →
      usernameOf (creds (created s d (senderOf payload) t (loginOf payload)
        (payload.password.getD []))) x = expected s payload x) ↔ LoginOk s payload := by
  have hlisted (x : Str) : (∃ v, (d.set (senderOf payload) (some t)).get? x = some (some v)) ↔
      IsListed s payload x := by
    rw [IsListed, Dict.get?_set]
    by_cases hx : x = senderOf payload
    · simp [hx]
    · simp only [hx, false_or]
      constructor
      · rintro ⟨v, hv⟩
        exact ⟨d, v, hd, hv⟩
      · rintro ⟨e, v, he, hv⟩
        cases hd.symm.trans he
        exact ⟨v, hv⟩
  unfold LoginOk
  by_cases hne : loginOf payload = []
  · rw [if_pos hne]
    constructor
    · intro h
      have := h (senderOf payload) t (by rw [Dict.get?_set, if_pos rfl])
      rwa [hne, creds_created_of_nil, expected, if_pos rfl, hne] at this
    · intro h x v _
      rw [hne, creds_created_of_nil, expected]
      split
      · rename_i hx
        rw [hx, h, hne]
      · rfl
  · obtain ⟨hc, ho⟩ := hlogin hne
    rw [if_neg hne]
    constructor
    · intro h
      refine ⟨hc, ho, fun x login hx hl => ?_⟩
      obtain ⟨v, hv⟩ := (hlisted x).mpr hx
      exact (username_written_iff hk hne hc ho x).mp (h x v hv) login hl
    · rintro ⟨-, -, h⟩ x v hv
      exact (username_written_iff hk hne hc ho x).mpr fun login hl =>
        h x login ((hlisted x).mp ⟨v, hv⟩) hl

end

/-! ## Creating a relay -/

/-- The files that `create_relay` leaves. -/
def afterCreate (s : Files) (d : Dict Str Target) (payload : RelayHostCreate) : Files :=
  created s d (senderOf payload) (hostOf payload, payload.port) (loginOf payload)
    (payload.password.getD [])

section
variable {s : Files} {d : Dict Str Target} {payload : RelayHostCreate}

theorem words_of_readsBack (hd : relays s = some d)
    (h : ReadsBack (answerOf payload) s (afterCreate s d payload)) :
    IsAddress (senderOf payload) ∧ IsTarget (hostOf payload, payload.port) ∧
      ']' ∉ hostOf payload ∧ PlainHosts s := by
  obtain ⟨⟨before, after, hb, ha, hins⟩, -⟩ := h
  rw [run_listRelays, hd] at hb
  cases hb
  rw [run_listRelays] at ha
  cases hd' : relays (afterCreate s d payload) with
  | none =>
    rw [hd'] at ha
    cases ha
  | some d' =>
    rw [hd'] at ha
    cases ha
    obtain ⟨k, t, hkt, e⟩ := mem_relayHosts.mp (hins.mem.mpr (.inl rfl))
    obtain ⟨rfl, hh, hp, -, -⟩ := RelayHost.mk.inj e
    obtain rfl : t = (hostOf payload, payload.port) := Prod.ext hh hp
    refine storable_of_relays hd hd' hkt fun x v hx => ?_
    obtain ⟨y, w, hy, e⟩ := mem_relayHosts.mp
      (hins.mem.mpr (.inr (mem_relayHosts.mpr ⟨x, v, hx, rfl⟩)))
    obtain ⟨rfl, rfl, -⟩ := relayHost_eq_iff.mp e
    exact hy

/-- Where the relay map is read back, the usernames are what is left to say. -/
theorem readsBack_iff (hd : relays s = some d) (hk : senderOf payload ∉ d.keys)
    (hs : IsAddress (senderOf payload)) (ht : IsTarget (hostOf payload, payload.port))
    (hb : ']' ∉ hostOf payload) (hall : PlainHosts s) :
    ReadsBack (answerOf payload) s (afterCreate s d payload) ↔
      ∀ x v, (d.set (senderOf payload) (some (hostOf payload, payload.port))).get? x =
        some (some v) → usernameOf (creds (afterCreate s d payload)) x = expected s payload x := by
  obtain ⟨d', hd', hget⟩ : ∃ d', relays (afterCreate s d payload) = some d' ∧ _ :=
    exists_relays_created hd hs ht hb hall
  have hhosts (c : Dict Str (Str × Str)) : relayHosts d' c =
      relayHosts (d.set (senderOf payload) (some (hostOf payload, payload.port))) c :=
    relayHosts_congr hget fun _ _ _ => rfl
  have hiff : Inserted RelayHost.sender (answerOf payload) (relayHosts d (creds s))
      (relayHosts (d.set (senderOf payload) (some (hostOf payload, payload.port)))
        (creds (afterCreate s d payload))) ↔ _ := inserted_relayHosts hk
  constructor
  · rintro ⟨⟨before, after, hbefore, hafter, hins⟩, -⟩
    rw [run_listRelays, hd] at hbefore
    cases hbefore
    rw [run_listRelays, hd'] at hafter
    cases hafter
    rw [hhosts] at hins
    exact hiff.mp hins
  · intro h
    refine ⟨⟨_, _, by rw [run_listRelays, hd], by rw [run_listRelays, hd'], ?_⟩, ?_⟩
    · rw [hhosts]
      exact hiff.mpr h
    · rw [run_listRelayExclusions, run_listRelayExclusions, hd, hd']
      exact congrArg Except.ok ((relayExclusions_congr hget).trans (relayExclusions_set hk))

/-- A username that is read back was fit to be written. -/
theorem login_of_read (hne : loginOf payload ≠ [])
    (h : usernameOf (creds (afterCreate s d payload)) (senderOf payload) = loginOf payload) :
    ':' ∉ loginOf payload ∧ OneLine (loginOf payload) := by
  cases hc : (creds (afterCreate s d payload)).get? (senderOf payload) with
  | none =>
    rw [usernameOf, hc] at h
    exact absurd h.symm hne
  | some login =>
    rw [usernameOf, hc] at h
    have hcred := isCred_of_creds _ (Dict.mem_items.mpr hc)
    rw [← h]
    exact ⟨hcred.noColon, hcred.user.2⟩

end

/-- A relay that was created is listed in its place, with the earlier ones as
they were, exactly when it is `Storable`. -/
theorem created_iff (s s' : Files) (payload : RelayHostCreate) (r : RelayHost)
    (h : (createRelay payload).run box s = (.ok r, s')) :
    ReadsBack r s s' ↔ Storable s payload := by
  obtain ⟨d, hd, hat, hk, rfl, rfl⟩ := run_createRelay h
  change ReadsBack (answerOf payload) s (afterCreate s d payload) ↔ _
  constructor
  · intro h
    obtain ⟨hs, ht, hb, hall⟩ := words_of_readsBack hd h
    have husers := (readsBack_iff hd hk hs ht hb hall).mp h
    have hself := husers (senderOf payload) (hostOf payload, payload.port)
      (by rw [Dict.get?_set, if_pos rfl])
    rw [expected, if_pos rfl] at hself
    have hlogin := (usernames_iff hd hs fun hne => login_of_read hne hself).mp husers
    exact ⟨⟨hs.noSpace, hs.head⟩, ⟨ht.ne, ht.noSpace, hb⟩, hall, hlogin⟩
  · rintro ⟨⟨h₁, h₂⟩, ⟨h₃, h₄, h₅⟩, hall, hlogin⟩
    have hs := isAddress_senderOf h₁ h₂ hat
    refine (readsBack_iff hd hk hs (isTarget_hostOf h₃ h₄) h₅ hall).mpr ?_
    refine (usernames_iff hd hs fun hne => ?_).mpr hlogin
    rw [LoginOk, if_neg hne] at hlogin
    exact ⟨hlogin.1, hlogin.2.1⟩

/-- Files with nothing but a relay map and credentials. -/
def filesWith (relaymap sasl : String) : Files := fun p =>
  if p = configPath relaymapFilename then some relaymap.toList
  else if p = configPath saslFilename then some sasl.toList else none

/-- A relay, a sender that is opted out, and the credentials of a relay that is
gone. -/
def earlier : Files :=
  filesWith "@A.org\tmx.a.org:25\n# out\n@z.org\n" "@a.org joe:secret\n@q.org q:q\n"

def ordinary : RelayHostCreate :=
  ⟨" @M.org ".toList, " mx.m.org ".toList, 2525, some " ann ".toList, some "p:w ".toList, by decide,
    by decide, by decide, by rintro _ ⟨⟩; decide, by rintro _ ⟨⟩; decide⟩

theorem created_iff_ordinary :
    ∃ r s', (createRelay ordinary).run box earlier = (.ok r, s') ∧ ReadsBack r earlier s' ∧
      (listRelays.run box s').1.toOption = some [
        ⟨"@a.org".toList, "mx.a.org".toList, 25, some "joe".toList, true⟩,
        ⟨"@m.org".toList, "mx.m.org".toList, 2525, some "ann".toList, true⟩] := by
  obtain ⟨r, hr⟩ := exists_ok (r := ((createRelay ordinary).run box earlier).1) (by decide +kernel)
  have hrun : (createRelay ordinary).run box earlier =
      (.ok r, ((createRelay ordinary).run box earlier).2) := Prod.ext hr rfl
  refine ⟨r, _, hrun, (created_iff earlier _ ordinary r hrun).mpr ?_, by decide +kernel⟩
  refine ⟨by decide +kernel, by decide +kernel, plainHosts_iff.mpr (by decide +kernel), ?_⟩
  have hone : OneLine (ordinary.password.getD []) := by decide +kernel
  rw [LoginOk, if_neg (by decide +kernel)]
  exact ⟨by decide +kernel, by decide +kernel, harmless_of_oneLine hone⟩

theorem sender_bracketed : 1 ≤ "@x.org".toList.length ∧ "@x.org".toList.length ≤ 255 := by decide

theorem port_bracketed : 1 ≤ 25 ∧ 25 ≤ 65535 := by decide

/-- The host as it stands in the file. -/
def bracketed : RelayHostCreate :=
  ⟨"@x.org".toList, "[mx.x.org]".toList, 25, none, none, sender_bracketed, by decide,
    port_bracketed, by simp, by simp⟩

/-- The answer names one host and port, and the list another. -/
theorem bracketed_host :
    ∃ r s', (createRelay bracketed).run box (filesWith "" "") = (.ok r, s') ∧
      r = ⟨"@x.org".toList, "[mx.x.org]".toList, 25, none, false⟩ ∧
      (listRelays.run box s').1.toOption =
        some [⟨"@x.org".toList, "[mx.x.org".toList, 587, none, false⟩] ∧
      ¬ ReadsBack r (filesWith "" "") s' := by
  obtain ⟨r, hr⟩ := exists_ok
    (r := ((createRelay bracketed).run box (filesWith "" "")).1) (by decide +kernel)
  have hrun : (createRelay bracketed).run box (filesWith "" "") =
      (.ok r, ((createRelay bracketed).run box (filesWith "" "")).2) := Prod.ext hr rfl
  obtain ⟨-, -, -, -, he, -⟩ := run_createRelay hrun
  have hlist : (listRelays.run box ((createRelay bracketed).run box (filesWith "" "")).2).1.toOption =
      some [⟨"@x.org".toList, "[mx.x.org".toList, 587, none, false⟩] := by decide +kernel
  refine ⟨r, _, hrun, by rw [he]; decide +kernel, hlist, ?_⟩
  rintro ⟨⟨before, after, -, hafter, hins⟩, -⟩
  rw [hafter] at hlist
  have hm := hins.mem.mpr (.inl rfl)
  rw [Option.some.inj hlist, he] at hm
  exact absurd hm (by decide +kernel)

/-! ## Deleting a relay -/

/-- One relay is gone with its credentials. The exclusions, the other relays and
the other credentials with a username are as they were. -/
structure Deleted (key : Str) (s s' : Files) : Prop where
  relays : ∃ before, listRelays.run box s = (.ok before, s) ∧
    listRelays.run box s' = (.ok (before.filter fun r => r.sender ≠ key), s')
  exclusions : ∃ l, listRelayExclusions.run box s = (.ok l, s) ∧
    listRelayExclusions.run box s' = (.ok l, s')
  others : ∀ x login, x ≠ key → login.1 ≠ [] →
    ((creds s').get? x = some login ↔ (creds s).get? x = some login)
  gone : (creds s').get? key = none

section
variable {s : Files} {d : Dict Str Target} {key : Str}

theorem relays_deleted :
    relays (deleted s d key) = relaysOf (textLines (managed (relayLines (d.erase key)))) := by
  unfold deleted
  dsimp only
  split
  · exact relays_putRelays
  · rw [relays_putCreds, relays_putRelays]

theorem mem_items_erase {p : Str × Target} (h : p ∈ (d.erase key).items) : p ∈ d.items :=
  (List.mem_filter.mp h).1

theorem exists_relays_deleted (hd : relays s = some d) (hall : PlainHosts s) :
    ∃ d', relays (deleted s d key) = some d' ∧ ∀ x, d'.get? x = (d.erase key).get? x := by
  rw [relays_deleted]
  refine get?_relaysOf_written fun p hp => ?_
  have hp := mem_items_erase hp
  exact ⟨isRelay_of_relays hd p hp, hall d hd p.1 p.2 (Dict.mem_items.mp hp)⟩

/-- The entries without a username go, as does that of the relay. -/
theorem creds_deleted (x : Str) :
    (creds (deleted s d key)).get? x =
      if (creds s).get? key = none then (creds s).get? x
      else (usable ((creds s).erase key)).get? x := by
  unfold deleted
  dsimp only
  split
  · rw [creds_putRelays]
  · rw [creds_putCreds]
    refine get?_credsOf_written (fun p hp => ?_) x
    exact isCred_of_creds p (List.mem_filter.mp hp).1

theorem usernameOf_deleted {x : Str} (hx : x ≠ key) :
    usernameOf (creds (deleted s d key)) x = usernameOf (creds s) x := by
  rw [usernameOf, creds_deleted]
  split
  · rfl
  · refine (usernameOf_usable _ x).trans ?_
    rw [usernameOf, Dict.get?_erase, if_neg hx]
    rfl

theorem usable_erase {x : Str} {login : Str × Str} (hx : x ≠ key) (hne : login.1 ≠ []) :
    (usable ((creds s).erase key)).get? x = some login ↔ (creds s).get? x = some login := by
  rw [usable, Dict.get?_filterVal, Dict.get?_erase, if_neg hx, Option.filter_eq_some_iff]
  exact and_iff_left (by simpa using hne)

end

/-- A deletion does nothing else, whatever the lines of the two files, where the
targets have one of the three shapes. -/
theorem deleted_alone (s s' : Files) (sender : Str)
    (hs : TargetsShaped (textLines ((s (configPath relaymapFilename)).getD [])))
    (h : (deleteRelay sender).run box s = (.ok (), s')) : Deleted (normalise sender) s s' := by
  obtain ⟨d, t, hd, ht, rfl⟩ := run_deleteRelay h
  have hall : PlainHosts s := plainHosts_iff.mpr fun e he p hp => plain_of_targetsShaped hs he hp
  obtain ⟨d', hd', hget⟩ : ∃ d', relays (deleted s d (normalise sender)) = some d' ∧ _ :=
    exists_relays_deleted hd hall
  have hcreds (x : Str) : (creds (deleted s d (normalise sender))).get? x =
      if (creds s).get? (normalise sender) = none then (creds s).get? x
      else (usable ((creds s).erase (normalise sender))).get? x := creds_deleted x
  have hothers (x : Str) (login : Str × Str) (hx : x ≠ normalise sender) (hne : login.1 ≠ []) :
      (creds (deleted s d (normalise sender))).get? x = some login ↔
        (creds s).get? x = some login := by
    rw [hcreds]
    split
    · exact Iff.rfl
    · exact usable_erase hx hne
  refine ⟨⟨_, by rw [run_listRelays, hd], ?_⟩, ⟨_, by rw [run_listRelayExclusions, hd], ?_⟩,
    hothers, ?_⟩
  · rw [run_listRelays, hd', ← relayHosts_erase]
    refine congrArg (fun l => (Except.ok l, _)) (relayHosts_congr hget fun x v hx => ?_)
    have hxk : x ≠ normalise sender := by
      rintro rfl
      rw [hget, Dict.get?_erase, if_pos rfl] at hx
      cases hx
    exact usernameOf_deleted hxk
  · rw [run_listRelayExclusions, hd']
    refine congrArg (fun l => (Except.ok l, _)) ((relayExclusions_congr hget).trans ?_)
    refine relayExclusions_erase ?_
    rw [ht]
    simp
  · rw [hcreds]
    split
    · rename_i hn
      exact hn
    · rw [usable, Dict.get?_filterVal, Dict.get?_erase, if_pos rfl]
      rfl

/-- Each shape, a sender that comes twice, mixed case, an exclusion, a password
with colons and credentials of a sender without a relay. -/
def handWritten : Files :=
  filesWith "@a.org [mx.a.org]:25\n@B.org  mx.b.org\n# out\n@z.org\n@C.org mx.c.org:2525\n@b.org\tmx2.b.org\n"
    "@A.org joe:secret\n@b.org ann:p:w:\n@q.org q\n@q.org q : q\n"

theorem deleted_alone_handWritten :
    ∃ s', (deleteRelay " @A.org".toList).run box handWritten = (.ok (), s') ∧
      Deleted "@a.org".toList handWritten s' ∧
      (listRelays.run box s').1.toOption = some [
        ⟨"@b.org".toList, "mx2.b.org".toList, 587, some "ann".toList, true⟩,
        ⟨"@c.org".toList, "mx.c.org".toList, 2525, none, false⟩] := by
  have hrun : (deleteRelay " @A.org".toList).run box handWritten =
      (.ok (), ((deleteRelay " @A.org".toList).run box handWritten).2) :=
    Prod.ext (by decide +kernel) rfl
  have htokens : ((textLines ((handWritten (configPath relaymapFilename)).getD [])).filterMap
      fun l => (words l)[1]?) = ['[' :: "mx.a.org".toList ++ ']' :: ':' :: "25".toList,
        "mx.b.org".toList, "mx.c.org".toList ++ ':' :: "2525".toList, "mx2.b.org".toList] := by
    decide +kernel
  have hshaped : TargetsShaped (textLines ((handWritten (configPath relaymapFilename)).getD [])) := by
    refine targetsShaped_of_tokens htokens ?_
    simp only [List.forall_mem_cons]
    exact ⟨.bracketed _ _ (by decide), .bare _ (by decide),
      .withPort _ _ (by decide) (by decide) (by decide), .bare _ (by decide), List.forall_mem_nil _⟩
  have hkey : normalise " @A.org".toList = "@a.org".toList := by decide +kernel
  have hdel := deleted_alone handWritten _ " @A.org".toList hshaped hrun
  rw [hkey] at hdel
  exact ⟨_, hrun, hdel, by decide +kernel⟩

end MailserverUi.L4.RelayReadBack
