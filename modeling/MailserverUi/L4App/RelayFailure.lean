import MailserverUi.L3Service.RelaySpec

/-!
# What a failed relay call leaves behind

A relay is in the relay map, and its username and password are in another file.
Every check comes before the first write, so that what is left to go wrong is a
container command between the two writes, or the second write itself.

Results:
* `bothKept_iff`: a call that raises leaves both files as they were exactly when
  it is rejected, or would write the relay map that is there, or no command
  fails after the first write.
* `half_created`: a relay without its credentials, which the same call does not
  mend.
-/
namespace MailserverUi.L4.RelayFailure

open Py L1.ServerFiles L1.ConfigText L1.Relays L2.Errors L2.Container
open L3.MailserverService L3.RelaySpec
open Prog (Reads)

/-! ## When a call is safe -/

/-- Both files are as they were. -/
structure Kept (s t : Files) : Prop where
  relaymap : t (configPath relaymapFilename) = s (configPath relaymapFilename)
  sasl : t (configPath saslFilename) = s (configPath saslFilename)

/-- No command fails from the second to write on, of so many. -/
def NoneFails (commands : Nat) (fails : Option Nat) : Prop :=
  ∀ n, fails = some n → n ≤ 1 ∨ commands ≤ n

section
variable (s : Files)

/-- The relay map that `create_relay` writes, if it gets there. -/
def mapWith (payload : RelayHostCreate) : Option (Dict Str Target) :=
  if '@' ∈ normalise payload.sender then
    (relays s).bind fun d => if normalise payload.sender ∈ d.keys then none
      else some (d.set (normalise payload.sender) (some (strip payload.host, payload.port)))
  else none

/-- The relay map that `delete_relay` writes, if it gets there. -/
def mapWithout (sender : Str) : Option (Dict Str Target) :=
  (relays s).bind fun d => if (d.get? (normalise sender)).getD none = none then none
    else some (d.erase (normalise sender))

/-- How many commands a call that is not rejected issues. -/
def createCommands (payload : RelayHostCreate) : Nat :=
  if strip (payload.username.getD []) = [] then 2 else 4

def deleteCommands (sender : Str) : Nat :=
  if (creds s).get? (normalise sender) = none then 3 else 4

/-- Rejected, or with nothing to change in the relay map, or without a failure
behind the first write. -/
def CreateIntact (payload : RelayHostCreate) (fails : Option Nat) : Prop :=
  ∀ d, mapWith s payload = some d →
    s (configPath relaymapFilename) = some (managed (relayLines d)) ∨
      NoneFails (createCommands payload) fails

/-- Rejected, or without a failure behind the first write. -/
def DeleteIntact (sender : Str) (fails : Option Nat) : Prop :=
  ∀ d, mapWithout s sender = some d → NoneFails (deleteCommands s sender) fails

end

/-! ## Programs -/

section
variable {α : Type} {s : Files} {n : Nat} {p : Io α} {fails : Option Nat} {d : Dict Str Target}

theorem reads_parseRelaymap_bind {k : Dict Str Target → Io α} (hd : relays s = some d)
    (h : Reads box s n (k d) p) : Reads box s (n + 1) (parseRelaymap >>= k) p := by
  refine .call rfl ?_
  have e : relaysOf (configLines (s.read (configPath relaymapFilename))) = some d := hd
  show Reads box s n (Prog.ofOption .internal
    (relaysOf (configLines (s.read (configPath relaymapFilename)))) >>= k) p
  rw [e]
  exact h

theorem always_parseRelaymap_bind {k : Dict Str Target → Io α}
    (h : ∀ d, relays s = some d → (k d).Always box (· = s) s) :
    (parseRelaymap >>= k).Always box (· = s) s := by
  refine ⟨rfl, ?_⟩
  show ((Prog.ofOption .internal (relays s) : Io (Dict Str Target)) >>= k).Always box (· = s) s
  cases hd : relays s with
  | none => rfl
  | some d => exact h d hd

theorem reads_parseSasl_bind {k : Dict Str (Str × Str) → Io α} (h : Reads box s n (k (creds s)) p) :
    Reads box s (n + 1) (parseSasl >>= k) p := .call rfl h

theorem kept_self (s : Files) : Kept s s := ⟨rfl, rfl⟩

/-- The other file. -/
theorem always_of_issues {q : Io α} {t : Files} {x : Option Str}
    (h : q.Issues (Cmd.WritesIn (· = saslFilename)))
    (ht : t (configPath relaymapFilename) = x) (hs : s (configPath relaymapFilename) ≠ x) :
    q.Always box (fun u => ¬ Kept s u) t := by
  have hsasl : ¬ Touched (· = saslFilename) relaymapFilename := by
    rw [touched_eq]
    exact not_or.mpr ⟨sasl_ne_relaymap.symm.ne, sasl_ne_relaymap.right⟩
  have hall : q.Always box (fun u => u (configPath relaymapFilename) = x) t :=
    h.always (fun c u hc hu => (exec_of_writesIn hc hsasl u).trans hu) ht
  exact hall.mono fun u hu hk => hs (hk.relaymap.symm.trans hu)

/-- A program that changes the relay map with its second command. -/
theorem unchanged_iff_noneFails {k : Unit → Io α} (h : Reads box s 1 p (writeRelaymap d >>= k))
    (hs : s (configPath relaymapFilename) ≠ some (managed (relayLines d)))
    (hk : (k ()).Issues (Cmd.WritesIn (· = saslFilename))) (he : ¬ p.Errs box s) :
    (p.Raises box fails s → Kept s (p.stop box fails s)) ↔ NoneFails (p.steps box s) fails := by
  have h : Reads box s 1 p (.call (.writeConfig relaymapFilename (managed (relayLines d))) k) := h
  have hw : putRelays s d (configPath relaymapFilename) = some (managed (relayLines d)) :=
    write_self s _ _
  rw [Prog.unchanged_iff_stops h (kept_self s) (always_of_issues hk hw hs), NoneFails]
  cases fails with
  | none => simp [he]
  | some m => simp [he]

end

/-! ## Creating -/

section
variable {s : Files} {payload : RelayHostCreate} {fails : Option Nat} {d : Dict Str Target}

/-- What `create_relay` does after its first write. -/
def createRest (payload : RelayHostCreate) : Io RelayHost :=
  addCredentials (normalise payload.sender) (strip (payload.username.getD []))
      (payload.password.getD []) >>= fun _ => .pure (answerOf payload)

theorem reads_createRelay (h : mapWith s payload = some d) :
    Reads box s 1 (createRelay payload) (writeRelaymap d >>= fun _ => createRest payload) := by
  unfold mapWith at h
  split at h
  · rename_i hat
    obtain ⟨e, he, h⟩ := Option.bind_eq_some_iff.mp h
    split at h
    · cases h
    · rename_i hk
      cases h
      unfold createRelay requireRelaySender
      simp only [Prog.raiseIf_bind_neg (not_not.mpr hat), Prog.pure_bind']
      refine reads_parseRelaymap_bind he ?_
      rw [Prog.raiseIf_bind_neg hk]
      exact .here _
  · cases h

theorem always_createRelay_rejected (h : mapWith s payload = none) :
    (createRelay payload).Always box (· = s) s := by
  unfold createRelay requireRelaySender
  simp only [Prog.bind_assoc, Prog.pure_bind']
  refine Prog.always_raiseIf_bind.mpr ⟨fun _ => rfl, fun hat => ?_⟩
  refine always_parseRelaymap_bind fun d hd => ?_
  refine Prog.always_raiseIf_bind.mpr ⟨fun _ => rfl, fun hk => ?_⟩
  rw [mapWith, if_pos (not_not.mp hat), hd, Option.bind_some, if_neg hk] at h
  cases h

theorem issues_addCredentials {S : Str → Prop} (h : S saslFilename) (sender username password : Str) :
    (addCredentials sender username password).Issues (Cmd.WritesIn S) := by
  unfold addCredentials
  split
  · exact ⟨trivial, fun _ => ⟨h, fun _ => trivial⟩⟩
  · trivial

theorem errs_createRelay (h : mapWith s payload = some d) : ¬ (createRelay payload).Errs box s := by
  rintro ⟨e, he⟩
  rw [(reads_createRelay h).run_eq] at he
  have hw : (writeRelaymap d >>= fun _ => createRest payload).run box s =
      (createRest payload).run box (putRelays s d) := rfl
  rw [hw, createRest, Prog.run_bind, run_addCredentials] at he
  cases he

theorem steps_createRelay (h : mapWith s payload = some d) :
    (createRelay payload).steps box s = createCommands payload := by
  rw [(reads_createRelay h).steps_eq]
  have hw : (writeRelaymap d >>= fun _ => createRest payload).steps box s =
      (createRest payload).steps box (putRelays s d) + 1 := rfl
  rw [hw, createRest, createCommands, addCredentials]
  by_cases hu : strip (payload.username.getD []) = []
  · rw [if_neg (not_not.mpr hu), if_pos hu]
    rfl
  · rw [if_pos hu, if_neg hu]
    rfl

/-- The relay map is written as it is, and the other file by the last command,
if at all. -/
theorem kept_createRelay_of_same (h : mapWith s payload = some d)
    (hs : s (configPath relaymapFilename) = some (managed (relayLines d)))
    (hr : (createRelay payload).Raises box fails s) :
    Kept s ((createRelay payload).stop box fails s) := by
  have hput : Kept s (putRelays s d) :=
    ⟨(write_self s _ _).trans hs.symm, write_ne s sasl_ne_relaymap.ne sasl_ne_relaymap.left _⟩
  by_cases hu : strip (payload.username.getD []) = []
  · have hrest : createRest payload = .pure (answerOf payload) := by
      rw [createRest, addCredentials, if_neg (not_not.mpr hu)]
      rfl
    refine ((reads_createRelay h).always ⟨kept_self s, ?_⟩).stop fails
    rw [hrest]
    exact hput
  · have hlast : Reads box (putRelays s d) 1 (createRest payload)
        (writeSasl ((creds (putRelays s d)).set (normalise payload.sender)
          (strip (payload.username.getD []), payload.password.getD [])) >>=
            fun _ => .pure (answerOf payload)) := by
      rw [createRest, addCredentials, if_pos hu, Prog.bind_assoc]
      exact reads_parseSasl_bind (.here _)
    exact Prog.kept_of_last (reads_createRelay h) (kept_self s) hlast hput rfl hr

theorem kept_createRelay_iff : ((createRelay payload).Raises box fails s →
    Kept s ((createRelay payload).stop box fails s)) ↔ CreateIntact s payload fails := by
  unfold CreateIntact
  cases h : mapWith s payload with
  | none =>
    have := (always_createRelay_rejected h).stop fails
    simp [this, kept_self]
  | some d =>
    have hiff : (∀ e, some d = some e → s (configPath relaymapFilename) =
        some (managed (relayLines e)) ∨ NoneFails (createCommands payload) fails) ↔
          s (configPath relaymapFilename) = some (managed (relayLines d)) ∨
            NoneFails (createCommands payload) fails := by
      simp
    rw [hiff]
    by_cases hs : s (configPath relaymapFilename) = some (managed (relayLines d))
    · exact iff_of_true (kept_createRelay_of_same h hs) (.inl hs)
    · have hrest : (createRest payload).Issues (Cmd.WritesIn (· = saslFilename)) :=
        Prog.issues_bind (issues_addCredentials (S := (· = saslFilename)) rfl _ _ _) fun _ => trivial
      rw [unchanged_iff_noneFails (reads_createRelay h) hs hrest (errs_createRelay h),
        steps_createRelay h]
      exact (or_iff_right hs).symm

end

/-! ## Deleting -/

section
variable {s : Files} {sender : Str} {fails : Option Nat} {d : Dict Str Target}

theorem mapWithout_eq_some (h : mapWithout s sender = some d) :
    ∃ e, relays s = some e ∧ normalise sender ∈ e.keys ∧
      (e.get? (normalise sender)).getD none ≠ none ∧ d = e.erase (normalise sender) := by
  obtain ⟨e, he, h⟩ := Option.bind_eq_some_iff.mp h
  split at h
  · cases h
  · rename_i hk
    cases h
    refine ⟨e, he, ?_, hk, rfl⟩
    by_contra hn
    rw [Dict.get?_eq_none.mpr hn] at hk
    exact hk rfl

theorem reads_deleteRelay (h : mapWithout s sender = some d) :
    Reads box s 1 (deleteRelay sender)
      (writeRelaymap d >>= fun _ => dropCredentials (normalise sender)) := by
  obtain ⟨e, he, -, hk, rfl⟩ := mapWithout_eq_some h
  refine reads_parseRelaymap_bind he ?_
  rw [Prog.raiseIf_bind_neg hk]
  exact .here _

theorem always_deleteRelay_rejected (h : mapWithout s sender = none) :
    (deleteRelay sender).Always box (· = s) s := by
  refine always_parseRelaymap_bind fun d hd => ?_
  refine Prog.always_raiseIf_bind.mpr ⟨fun _ => rfl, fun hk => ?_⟩
  rw [mapWithout, hd, Option.bind_some, if_neg hk] at h
  cases h

theorem issues_dropCredentials {S : Str → Prop} (h : S saslFilename) (key : Str) :
    (dropCredentials key).Issues (Cmd.WritesIn S) := by
  refine Prog.issues_bind ⟨trivial, fun _ => trivial⟩ fun c => ?_
  split
  · exact ⟨h, fun _ => trivial⟩
  · trivial

theorem errs_deleteRelay (h : mapWithout s sender = some d) : ¬ (deleteRelay sender).Errs box s := by
  rintro ⟨e, he⟩
  rw [(reads_deleteRelay h).run_eq] at he
  have hw : (writeRelaymap d >>= fun _ => dropCredentials (normalise sender)).run box s =
      (dropCredentials (normalise sender)).run box (putRelays s d) := rfl
  rw [hw, run_dropCredentials] at he
  cases he

theorem steps_deleteRelay (h : mapWithout s sender = some d) :
    (deleteRelay sender).steps box s = deleteCommands s sender := by
  rw [(reads_deleteRelay h).steps_eq]
  have hw : (writeRelaymap d >>= fun _ => dropCredentials (normalise sender)).steps box s =
      ((if (creds (putRelays s d)).get? (normalise sender) ≠ none then
        writeSasl ((creds (putRelays s d)).erase (normalise sender)) else .pure ()).steps box
          (putRelays s d)) + 2 := rfl
  rw [hw, creds_putRelays, deleteCommands]
  by_cases hc : (creds s).get? (normalise sender) = none
  · rw [if_neg (not_not.mpr hc), if_pos hc]
    rfl
  · rw [if_pos hc, if_neg hc]
    rfl

/-- The relay is in the map that is there, and not in the one that is written. -/
theorem ne_mapWithout (h : mapWithout s sender = some d) :
    s (configPath relaymapFilename) ≠ some (managed (relayLines d)) := by
  intro hs
  obtain ⟨e, he, hm, -, rfl⟩ := mapWithout_eq_some h
  obtain ⟨v, hv⟩ := Option.ne_none_iff_exists'.mp (mt Dict.get?_eq_none.mp (not_not.mpr hm))
  have hall : ∀ p ∈ (e.erase (normalise sender)).items, IsRelay p :=
    fun p hp => isRelay_of_relays he p (List.mem_filter.mp hp).1
  have hd : relaysOf (textLines (managed (relayLines (e.erase (normalise sender))))) = some e := by
    rw [← he, relays, hs]
    rfl
  have hk := (plain_of_written hall hd hv).1
  refine Dict.get?_eq_none.mp ?_ hk
  rw [Dict.get?_erase, if_pos rfl]

theorem kept_deleteRelay_iff : ((deleteRelay sender).Raises box fails s →
    Kept s ((deleteRelay sender).stop box fails s)) ↔ DeleteIntact s sender fails := by
  unfold DeleteIntact
  cases h : mapWithout s sender with
  | none =>
    have := (always_deleteRelay_rejected h).stop fails
    simp [this, kept_self]
  | some d =>
    have hiff : (∀ e, some d = some e → NoneFails (deleteCommands s sender) fails) ↔
        NoneFails (deleteCommands s sender) fails := by
      simp
    rw [hiff, unchanged_iff_noneFails (reads_deleteRelay h) (ne_mapWithout h)
      (issues_dropCredentials (S := (· = saslFilename)) rfl _) (errs_deleteRelay h),
      steps_deleteRelay h]

end

/-- A call that raises leaves both files as they were exactly when it is rejected
before the first write, or has nothing to change there, or no command fails
after it. -/
theorem bothKept_iff (s : Files) (fails : Option Nat) :
    (∀ payload, ((createRelay payload).Raises box fails s →
      Kept s ((createRelay payload).stop box fails s)) ↔ CreateIntact s payload fails) ∧
    ∀ sender, ((deleteRelay sender).Raises box fails s →
      Kept s ((deleteRelay sender).stop box fails s)) ↔ DeleteIntact s sender fails :=
  ⟨fun _ => kept_createRelay_iff, fun _ => kept_deleteRelay_iff⟩

def withLogin : RelayHostCreate :=
  ⟨"@x.org".toList, "mx.x.org".toList, 25, some "u".toList, some "p".toList, by decide, by decide,
    by decide, by rintro _ ⟨⟩; decide, by rintro _ ⟨⟩; decide⟩

/-- The files after a `create_relay` whose last command fails. -/
def halfCreated : Files := (createRelay withLogin).stop box (some 3) fun _ => none

/-- The relay is there and its credentials are not, and the same call is
answered 409. -/
theorem half_created :
    (createRelay withLogin).Raises box (some 3) (fun _ => none) ∧
      ¬ Kept (fun _ => none) halfCreated ∧
      (listRelays.run box halfCreated).1.toOption =
        some [⟨"@x.org".toList, "mx.x.org".toList, 25, none, false⟩] ∧
      ((createRelay withLogin).run box halfCreated).1 = .error (relayExists "@x.org".toList) := by
  have hmap : halfCreated (configPath relaymapFilename) ≠ none := by decide +kernel
  refine ⟨.inl ⟨3, rfl, by decide +kernel⟩, fun h => hmap h.relaymap, by decide +kernel,
    by decide +kernel⟩

end MailserverUi.L4.RelayFailure
