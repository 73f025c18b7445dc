import MailserverUi.L1Encoding.Relays
import MailserverUi.L3Service.MailserverService

/-!
# What the relay operations do

`relays` is what is parsed of `postfix-relaymap.cf`, `creds` what is parsed of
`postfix-sasl-password.cf`. An operation is described by what it writes into
these two files.

Results:
* `run_createRelay`, `run_deleteRelay`: what a successful call found and wrote.
* `inserted_relayHosts`: one relay more is listed in its place exactly when it
  and the earlier ones have the usernames they should have.
-/
namespace MailserverUi.L3.RelaySpec

open Py L1.MailFiles L1.ServerFiles L1.ConfigText L1.Relays L2.Errors L2.Container
open L3.MailserverService

/-! ## The two files -/

/-- What `_parse_relaymap` returns: `none` where it raises. -/
def relays (s : Files) : Option (Dict Str Target) :=
  relaysOf (textLines ((s (configPath relaymapFilename)).getD []))

/-- What `_parse_sasl` returns. -/
def creds (s : Files) : Dict Str (Str × Str) :=
  credsOf (textLines ((s (configPath saslFilename)).getD []))

/-- The username of a sender, empty when it has none. -/
def usernameOf (creds : Dict Str (Str × Str)) (sender : Str) : Str :=
  ((creds.get? sender).getD ([], [])).1

def putRelays (s : Files) (d : Dict Str Target) : Files :=
  s.write relaymapFilename (managed (relayLines d))

def putCreds (s : Files) (c : Dict Str (Str × Str)) : Files :=
  s.write saslFilename (managed (saslLines c))

/-! ## A new relay -/

section
variable (payload : RelayHostCreate)

def senderOf : Str := normalise payload.sender

def hostOf : Str := strip payload.host

def loginOf : Str := strip (payload.username.getD [])

/-- What `create_relay` returns. -/
def answerOf : RelayHost :=
  ⟨senderOf payload, hostOf payload, payload.port,
    if loginOf payload ≠ [] then some (loginOf payload) else none, loginOf payload ≠ []⟩

end

/-! ## Reading and writing -/

section
variable {s : Files} {d : Dict Str Target} {c : Dict Str (Str × Str)}

theorem sasl_ne_relaymap : Unrelated saslFilename relaymapFilename := by decide

theorem relays_putRelays :
    relays (putRelays s d) = relaysOf (textLines (managed (relayLines d))) := by
  rw [relays, putRelays, write_self]
  rfl

theorem creds_putRelays : creds (putRelays s d) = creds s := by
  rw [creds, putRelays, write_ne s sasl_ne_relaymap.ne sasl_ne_relaymap.left]
  rfl

theorem relays_putCreds : relays (putCreds s c) = relays s := by
  rw [relays, putCreds, write_ne s sasl_ne_relaymap.symm.ne sasl_ne_relaymap.right]
  rfl

theorem creds_putCreds : creds (putCreds s c) = credsOf (textLines (managed (saslLines c))) := by
  rw [creds, putCreds, write_self]
  rfl

theorem isRelay_of_relays (h : relays s = some d) : ∀ p ∈ d.items, IsRelay p :=
  fun _ => isRelay_of_mem h

theorem isCred_of_creds : ∀ p ∈ (creds s).items, IsCred p := fun _ => isCred_of_mem

end

/-! ## Programs -/

section
variable {α : Type} {s s' : Files} {e : ApiError}

theorem run_parseRelaymap_bind (f : Dict Str Target → Io α) :
    (parseRelaymap >>= f).run box s = match relays s with
      | some d => (f d).run box s
      | none => (.error .internal, s) := by
  have h : (parseRelaymap >>= f).run box s =
      ((Prog.ofOption .internal (relays s) : Io (Dict Str Target)) >>= f).run box s := rfl
  rw [h]
  cases relays s <;> rfl

theorem run_parseSasl_bind (f : Dict Str (Str × Str) → Io α) :
    (parseSasl >>= f).run box s = (f (creds s)).run box s := rfl

theorem run_listRelays : listRelays.run box s = match relays s with
    | some d => (.ok (relayHosts d (creds s)), s)
    | none => (.error .internal, s) := by
  rw [listRelays, run_parseSasl_bind, run_parseRelaymap_bind]
  cases relays s <;> rfl

theorem run_listRelayExclusions : listRelayExclusions.run box s = match relays s with
    | some d => (.ok (relayExclusions d), s)
    | none => (.error .internal, s) := by
  rw [listRelayExclusions, run_parseRelaymap_bind]
  cases relays s <;> rfl

/-- The files after `create_relay`. -/
def created (s : Files) (d : Dict Str Target) (sender : Str) (target : Str × Nat)
    (username password : Str) : Files :=
  let s₁ := putRelays s (d.set sender (some target))
  if username = [] then s₁ else putCreds s₁ ((creds s).set sender (username, password))

theorem run_addCredentials (sender username password : Str) :
    (addCredentials sender username password).run box s = (.ok (),
      if username = [] then s else putCreds s ((creds s).set sender (username, password))) := by
  unfold addCredentials
  by_cases h : username = []
  · rw [if_neg (not_not.mpr h), if_pos h]
    rfl
  · rw [if_pos h, if_neg h]
    rfl

variable {payload : RelayHostCreate} {r : RelayHost} {sender : Str}

theorem run_createRelay (h : (createRelay payload).run box s = (.ok r, s')) :
    ∃ d, relays s = some d ∧ '@' ∈ senderOf payload ∧ senderOf payload ∉ d.keys ∧
      r = answerOf payload ∧
      s' = created s d (senderOf payload) (hostOf payload, payload.port) (loginOf payload)
        (payload.password.getD []) := by
  unfold createRelay requireRelaySender at h
  simp only [Prog.bind_assoc, Prog.run_raiseIf_bind, Prog.pure_bind', run_parseRelaymap_bind] at h
  split at h
  · cases h
  · rename_i hat
    cases hd : relays s with
    | none =>
      rw [hd] at h
      cases h
    | some d =>
      rw [hd] at h
      dsimp only at h
      split at h
      · cases h
      · rename_i hk
        have hw (f : Unit → Io RelayHost) (d : Dict Str Target) :
            (writeRelaymap d >>= f).run box s = (f ()).run box (putRelays s d) := rfl
        rw [hw, Prog.run_bind, run_addCredentials, creds_putRelays] at h
        cases h
        exact ⟨d, rfl, not_not.mp hat, hk, rfl, rfl⟩

/-- The files after `delete_relay`. -/
def deleted (s : Files) (d : Dict Str Target) (key : Str) : Files :=
  let s₁ := putRelays s (d.erase key)
  if (creds s).get? key = none then s₁ else putCreds s₁ ((creds s).erase key)

theorem run_dropCredentials (key : Str) : (dropCredentials key).run box s = (.ok (),
    if (creds s).get? key = none then s else putCreds s ((creds s).erase key)) := by
  rw [dropCredentials, run_parseSasl_bind]
  by_cases h : (creds s).get? key = none
  · rw [if_neg (not_not.mpr h), if_pos h]
    rfl
  · rw [if_pos h, if_neg h]
    rfl

theorem run_deleteRelay (h : (deleteRelay sender).run box s = (.ok (), s')) :
    ∃ d t, relays s = some d ∧ d.get? (normalise sender) = some (some t) ∧
      s' = deleted s d (normalise sender) := by
  unfold deleteRelay at h
  dsimp only at h
  rw [run_parseRelaymap_bind] at h
  cases hd : relays s with
  | none =>
    rw [hd] at h
    cases h
  | some d =>
    rw [hd] at h
    dsimp only at h
    rw [Prog.run_raiseIf_bind] at h
    split at h
    · cases h
    · rename_i hk
      have hw (f : Unit → Io Unit) (d : Dict Str Target) :
          (writeRelaymap d >>= f).run box s = (f ()).run box (putRelays s d) := rfl
      rw [hw, run_dropCredentials, creds_putRelays] at h
      cases h
      obtain ⟨t, ht⟩ := Option.ne_none_iff_exists'.mp hk
      refine ⟨d, t, rfl, ?_, rfl⟩
      cases hg : d.get? (normalise sender) with
      | none =>
        rw [hg] at ht
        cases ht
      | some u =>
        rw [hg] at ht
        exact congrArg some ht

end

/-! ## What is listed -/

section
variable {d e : Dict Str Target} {c c' : Dict Str (Str × Str)} {k : Str} {t : Str × Nat}

theorem relayHost_eq_iff {k k' : Str} {t t' : Str × Nat} :
    relayHost c k t = relayHost c' k' t' ↔
      k = k' ∧ t = t' ∧ usernameOf c k = usernameOf c' k' := by
  have hu (a b : Str) : (if a ≠ [] then some a else none) = (if b ≠ [] then some b else none) ↔
      a = b := by
    by_cases ha : a = [] <;> by_cases hb : b = [] <;> simp [ha, hb, eq_comm]
  constructor
  · intro h
    obtain ⟨hk, ht₁, ht₂, hn, -⟩ := RelayHost.mk.inj h
    exact ⟨hk, Prod.ext ht₁ ht₂, (hu _ _).mp hn⟩
  · rintro ⟨rfl, rfl, h⟩
    unfold relayHost
    unfold usernameOf at h
    dsimp only
    rw [h]

theorem mem_relayHosts {x : RelayHost} :
    x ∈ relayHosts d c ↔ ∃ k t, d.get? k = some (some t) ∧ relayHost c k t = x := by
  unfold relayHosts
  rw [List.mem_filterMap]
  constructor
  · rintro ⟨⟨k, u⟩, hm, h⟩
    obtain ⟨t, rfl, rfl⟩ := Option.map_eq_some_iff.mp h
    exact ⟨k, t, Dict.mem_items.mp (Dict.mem_sortedItems.mp hm), rfl⟩
  · rintro ⟨k, t, hk, rfl⟩
    exact ⟨(k, some t), Dict.mem_sortedItems.mpr (Dict.mem_items.mpr hk), rfl⟩

theorem relayHosts_congr (h : ∀ k, d.get? k = e.get? k)
    (hu : ∀ k t, d.get? k = some (some t) → usernameOf c k = usernameOf c' k) :
    relayHosts d c = relayHosts e c' := by
  unfold relayHosts
  rw [← Dict.sortedItems_congr h]
  refine List.filterMap_congr fun p hp => ?_
  obtain ⟨k, u⟩ := p
  cases u with
  | none => rfl
  | some t =>
    have hk := Dict.mem_items.mp (Dict.mem_sortedItems.mp hp)
    exact congrArg some (relayHost_eq_iff.mpr ⟨rfl, rfl, hu k t hk⟩)

theorem relayExclusions_congr (h : ∀ k, d.get? k = e.get? k) :
    relayExclusions d = relayExclusions e := by
  rw [relayExclusions, Dict.sortedItems_congr h]
  rfl

/-- A relay more, and the usernames as they were. -/
theorem inserted_relayHosts (hk : k ∉ d.keys) {u : Str} :
    Inserted RelayHost.sender ⟨k, t.1, t.2, if u ≠ [] then some u else none, u ≠ []⟩
      (relayHosts d c) (relayHosts (d.set k (some t)) c') ↔
    ∀ x v, (d.set k (some t)).get? x = some (some v) →
      usernameOf c' x = if x = k then u else usernameOf c x := by
  have hr (c₀ : Dict Str (Str × Str)) (h : usernameOf c₀ k = u) :
      relayHost c₀ k t = ⟨k, t.1, t.2, if u ≠ [] then some u else none, u ≠ []⟩ := by
    subst h
    rfl
  constructor
  · intro h x v hx
    rw [Dict.get?_set] at hx
    have hm : relayHost c' x v ∈ relayHosts (d.set k (some t)) c' :=
      mem_relayHosts.mpr ⟨x, v, by rw [Dict.get?_set, hx], rfl⟩
    by_cases hxk : x = k
    · subst hxk
      rw [if_pos rfl]
      rcases h.mem.mp hm with e | hm
      · have e' := e.trans (hr (Dict.empty.set x (u, [])) (by simp [usernameOf, Dict.get?_set])).symm
        rw [(relayHost_eq_iff.mp e').2.2]
        simp [usernameOf, Dict.get?_set]
      · exact (h.ne hm rfl).elim
    · rw [if_neg hxk]
      rw [if_neg hxk] at hx
      rcases h.mem.mp hm with e | hm
      · exact absurd (congrArg RelayHost.sender e) hxk
      · obtain ⟨y, w, hy, e⟩ := mem_relayHosts.mp hm
        obtain ⟨rfl, -, hu⟩ := relayHost_eq_iff.mp e
        exact hu.symm
  · intro h
    have hset := h k t (by rw [Dict.get?_set, if_pos rfl])
    rw [if_pos rfl] at hset
    have hold : relayHosts d c = relayHosts d c' := by
      refine relayHosts_congr (fun _ => rfl) fun x v hx => ?_
      have hxk : x ≠ k := by
        rintro rfl
        rw [Dict.get?_eq_none.mpr hk] at hx
        cases hx
      have := h x v (by rw [Dict.get?_set, if_neg hxk, hx])
      rw [this, if_neg hxk]
    rw [hold, ← hr c' hset]
    refine (Dict.inserted_sortedItems hk (some t)).filterMap (fun p y hp => ?_) rfl
    obtain ⟨w, -, rfl⟩ := Option.map_eq_some_iff.mp hp
    rfl

theorem relayExclusions_set (hk : k ∉ d.keys) :
    relayExclusions (d.set k (some t)) = relayExclusions d := by
  obtain ⟨l₁, l₂, h₁, h₂, -, -⟩ := Dict.inserted_sortedItems hk (some t)
  rw [relayExclusions, relayExclusions, h₁, h₂, List.filterMap_append, List.filterMap_append]
  rfl

theorem relayHosts_erase (d : Dict Str Target) (c : Dict Str (Str × Str)) (k : Str) :
    relayHosts (d.erase k) c = (relayHosts d c).filter fun x => x.sender ≠ k := by
  rw [relayHosts, relayHosts, Dict.sortedItems_erase, List.filterMap_filter, List.filter_filterMap]
  refine List.filterMap_congr fun p _ => ?_
  obtain ⟨x, u⟩ := p
  cases u with
  | none => split <;> rfl
  | some t =>
    by_cases hx : x = k
    · simp [hx, relayHost, Option.filter]
    · simp [hx, relayHost, Option.filter]

theorem relayExclusions_erase (hk : d.get? k ≠ some none) :
    relayExclusions (d.erase k) = relayExclusions d := by
  rw [relayExclusions, relayExclusions, Dict.sortedItems_erase, List.filterMap_filter]
  refine List.filterMap_congr fun p hp => ?_
  obtain ⟨x, u⟩ := p
  by_cases hx : x = k
  · subst hx
    have hm := Dict.mem_items.mp (Dict.mem_sortedItems.mp hp)
    have hu : u ≠ none := by
      rintro rfl
      exact hk hm
    simp [hu]
  · simp [hx]

end

end MailserverUi.L3.RelaySpec
