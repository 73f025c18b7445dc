import MailserverUi.Core.Interrupt
import MailserverUi.L1Encoding.DkimFiles
import MailserverUi.L2Store.ConfigTree
import MailserverUi.L3Service.Settings

/-!
# DKIM keys, and their migration to Rspamd (`mailserver_service.py`)

The keys of OpenDKIM are found under `opendkim/keys`, those of Rspamd under
`rspamd/dkim`. A migration copies the two files of each key of the domains
Rspamd has no key of, one key after the other, and writes `dkim_signing.conf`
when all are copied.

`load_pem_private_key` is a parameter. Log lines are left out.

Results:
* `reads_migration`: what happens before anything is copied.
* `cut_copyKeys`, `run_copyKeys`: what the loop has copied after a number of
  commands, and when it is done.
-/
namespace MailserverUi.L3.Dkim

open Py L1.DkimFiles L2.Errors L2.Container L2.ConfigTree Settings
open Prog (Reads)

/-- mirrors backend/app/services/mailserver_service.py:102-105 -/
def opendkimKeysDir : Str := "opendkim/keys".toList
def rspamdDkimDir : Str := "rspamd/dkim".toList
def rspamdDkimSigningConf : Str := "rspamd/override.d/dkim_signing.conf".toList

/-- mirrors backend/app/models/mailserver_models.py:189-195 -/
structure DkimMigrationResult where
  keys : List DkimKey
  migratedDomains : List Str
  restartRequired : Bool
  deriving DecidableEq, Repr

/-- What `load_pem_private_key` makes of a text. -/
inductive PemKey where
  | rsa (keySize : Nat)
  | other
  | raises
  deriving DecidableEq, Repr

/-! ## Keys -/

/-- The loop of `_opendkim_keys`. -/
def readOpendkim : List Str → TreeIo (List DkimKey)
  | [] => .pure []
  | rel :: rels =>
    match openDkimName rel with
    | none => readOpendkim rels
    | some (domain, selector) => do
      let raw ← onTree (readConfig (opendkimKeysDir ++ '/' :: rel))
      let keys ← readOpendkim rels
      return dkimKey domain selector raw :: keys

/-- mirrors backend/app/services/mailserver_service.py:597-617 -/
def opendkimKeys : TreeIo (List DkimKey) := do
  let rels ← listFiles opendkimKeysDir txtSuffix
  readOpendkim rels

/-- The loop of `_rspamd_keys`. -/
def readRspamd : List Str → TreeIo (List DkimKey)
  | [] => .pure []
  | rel :: rels => do
    let raw ← onTree (readConfig (rspamdDkimDir ++ '/' :: rel))
    let keys ← readRspamd rels
    match rspamdName rel raw with
    | none => return keys
    | some (domain, selector) => return dkimKey domain selector raw :: keys

/-- mirrors backend/app/services/mailserver_service.py:620-648 -/
def rspamdKeys : TreeIo (List DkimKey) := do
  let rels ← listFiles rspamdDkimDir publicSuffix
  readRspamd rels

/-- The order of `sorted(keys, key=lambda key: (key.domain, key.selector))`. -/
def ByName (a b : DkimKey) : Prop := a.domain < b.domain ∨ a.domain = b.domain ∧ a.selector ≤ b.selector

instance : DecidableRel ByName := fun _ _ => inferInstanceAs (Decidable (_ ∨ _))

/-- mirrors backend/app/services/mailserver_service.py:651-659 -/
def listDkimKeys : TreeIo (List DkimKey) := do
  let backend ← onTree dkimBackend
  let keys ← if backend = .rspamd then rspamdKeys else opendkimKeys
  return keys.insertionSort ByName

/-- `sorted({key.domain for key in opendkim} - {key.domain for key in rspamd})`. -/
def unmigrated (opendkim rspamd : List DkimKey) : List Str :=
  ((opendkim.map (·.domain)).dedup.filter (· ∉ rspamd.map (·.domain))).insertionSort (· ≤ ·)

/-- mirrors backend/app/services/mailserver_service.py:674-686 -/
def dkimMigrationCandidates : TreeIo (List Str) := do
  let backend ← onTree dkimBackend
  if backend ≠ .rspamd then return []
  let migrated ← rspamdKeys
  let keys ← opendkimKeys
  return unmigrated keys migrated

/-! ## The migration -/

/-- mirrors backend/app/services/mailserver_service.py:662-671 -/
def rsaKeySize (load : Str → PemKey) (pem : Str) : TreeIo Nat :=
  match load pem with
  | .rsa keySize => .pure keySize
  | .other => .raise (conflict [lit "The OpenDKIM private key is not an RSA key."])
  | .raises => .raise .internal

def privateFile (key : DkimKey) : Str :=
  opendkimKeysDir ++ '/' :: key.domain ++ '/' :: key.selector ++ ".private".toList

def publicFile (key : DkimKey) : Str :=
  opendkimKeysDir ++ '/' :: key.domain ++ '/' :: key.selector ++ txtSuffix

/-- Where the two files of a key are copied to. -/
def privateCopy (size : Nat) (key : DkimKey) : Str :=
  rspamdDkimDir ++ '/' :: baseName size key.selector key.domain ++ privateSuffix

def publicCopy (size : Nat) (key : DkimKey) : Str :=
  rspamdDkimDir ++ '/' :: baseName size key.selector key.domain ++ publicSuffix

def keyBlock (size : Nat) (key : DkimKey) : Block :=
  ⟨key.domain, configPath (privateCopy size key), key.selector⟩

/-- The loop of `migrate_dkim_to_rspamd`.
mirrors backend/app/services/mailserver_service.py:710-736 -/
def copyKeys (load : Str → PemKey) (domains : List Str) : List DkimKey → Str → TreeIo Str
  | [], domainBlocks => .pure domainBlocks
  | key :: keys, domainBlocks =>
    if key.domain ∉ domains then copyKeys load domains keys domainBlocks
    else do
      let privatePem ← onTree (readConfig (privateFile key))
      let publicTxt ← onTree (readConfig (publicFile key))
      let size ← rsaKeySize load privatePem
      onTree (writeConfig (privateCopy size key) privatePem)
      onTree (writeConfig (publicCopy size key) publicTxt)
      copyKeys load domains keys (domainBlocks ++ blockText (keyBlock size key))

/-- What is left to do once the keys are listed. -/
def copyAndSign (load : Str → PemKey) (domains : List Str) (keys : List DkimKey) :
    TreeIo DkimMigrationResult := do
  let domainBlocks ← copyKeys load domains keys []
  onTree (writeConfig rspamdDkimSigningConf (signingConf domainBlocks))
  let keys ← listDkimKeys
  return ⟨keys, domains, true⟩

/-- mirrors backend/app/services/mailserver_service.py:689-756 -/
def migrateDkimToRspamd (load : Str → PemKey) : TreeIo DkimMigrationResult := do
  let backend ← onTree dkimBackend
  Prog.raiseIf (backend ≠ .rspamd) (conflict [lit "Rspamd is not the active DKIM signer."])
  let domains ← dkimMigrationCandidates
  Prog.raiseIf (domains = []) (conflict [lit "No OpenDKIM key found to migrate."])
  let conf ← onTree (readConfig rspamdDkimSigningConf)
  Prog.raiseIf (conf ≠ []) (conflict [.text rspamdDkimSigningConf,
    lit " already exists; add the migrated domain(s) to it by hand instead of overwriting it."])
  let keys ← opendkimKeys
  copyAndSign load domains keys

/-! ## What is read -/

section
variable (t : Tree)

def readRel (f : Str) : Str := (filesOf t).read (configPath f)

/-- What `_opendkim_keys` returns. -/
def opendkimKeysOf : List DkimKey :=
  (listConfigFiles t opendkimKeysDir txtSuffix).filterMap fun rel =>
    (openDkimName rel).map fun p => dkimKey p.1 p.2 (readRel t (opendkimKeysDir ++ '/' :: rel))

/-- What `_rspamd_keys` returns. -/
def rspamdKeysOf : List DkimKey :=
  (listConfigFiles t rspamdDkimDir publicSuffix).filterMap fun rel =>
    let raw := readRel t (rspamdDkimDir ++ '/' :: rel)
    (rspamdName rel raw).map fun p => dkimKey p.1 p.2 raw

/-- What `dkim_backend` returns. -/
def backendOf : Backend :=
  if flag (settingsOf ((filesOf t).read dmsSettingsPath)) "ENABLE_RSPAMD".toList then .rspamd
  else .opendkim

/-- What `dkim_migration_candidates` returns. -/
def candidatesOf : List Str :=
  if backendOf t ≠ .rspamd then [] else unmigrated (opendkimKeysOf t) (rspamdKeysOf t)

end

section
variable {α : Type} {t : Tree} {n : Nat} {p : TreeIo α}

theorem reads_readConfig_bind {f : Str} {k : Str → TreeIo α}
    (h : Reads treeBox t n (k (readRel t f)) p) :
    Reads treeBox t (n + 1) (onTree (readConfig f) >>= k) p := .call rfl h

theorem cut_readConfig_bind (f : Str) (k : Str → TreeIo α) (m : Nat) :
    (onTree (readConfig f) >>= k).cut treeBox (m + 1) t = (k (readRel t f)).cut treeBox m t := rfl

theorem cut_writeConfig_bind (f c : Str) (k : Unit → TreeIo α) (m : Nat) :
    (onTree (writeConfig f c) >>= k).cut treeBox (m + 1) t =
      (k ()).cut treeBox m (writeTree t f c) := rfl

theorem run_readConfig_bind (f : Str) (k : Str → TreeIo α) :
    (onTree (readConfig f) >>= k).run treeBox t = (k (readRel t f)).run treeBox t := rfl

theorem run_writeConfig_bind (f c : Str) (k : Unit → TreeIo α) :
    (onTree (writeConfig f c) >>= k).run treeBox t = (k ()).run treeBox (writeTree t f c) := rfl

theorem steps_readConfig_bind (f : Str) (k : Str → TreeIo α) :
    (onTree (readConfig f) >>= k).steps treeBox t = (k (readRel t f)).steps treeBox t + 1 := rfl

theorem steps_writeConfig_bind (f c : Str) (k : Unit → TreeIo α) :
    (onTree (writeConfig f c) >>= k).steps treeBox t =
      (k ()).steps treeBox (writeTree t f c) + 1 := rfl

theorem reads_dkimBackend_bind {k : Backend → TreeIo α}
    (h : Reads treeBox t n (k (backendOf t)) p) :
    Reads treeBox t (n + 1) (onTree dkimBackend >>= k) p := .call rfl h

theorem reads_listFiles_bind {relDir suffix : Str} {k : List Str → TreeIo α}
    (h : Reads treeBox t n (k (listConfigFiles t relDir suffix)) p) :
    Reads treeBox t (n + 1) (listFiles relDir suffix >>= k) p := .call rfl h

theorem reads_readOpendkim (rels : List Str) :
    let keys := rels.filterMap fun rel => (openDkimName rel).map fun q =>
      dkimKey q.1 q.2 (readRel t (opendkimKeysDir ++ '/' :: rel))
    Reads treeBox t keys.length (readOpendkim rels) (.pure keys) := by
  induction rels with
  | nil => exact .here _
  | cons rel rels ih =>
    unfold readOpendkim
    cases hn : openDkimName rel with
    | none =>
      simp only [List.filterMap_cons, hn, Option.map_none]
      exact ih
    | some q =>
      simp only [List.filterMap_cons, hn, Option.map_some, List.length_cons]
      exact reads_readConfig_bind (ih.bind _)

theorem reads_opendkimKeys :
    Reads treeBox t ((opendkimKeysOf t).length + 1) opendkimKeys (.pure (opendkimKeysOf t)) :=
  reads_listFiles_bind (reads_readOpendkim _)

theorem reads_readRspamd (rels : List Str) :
    Reads treeBox t rels.length (readRspamd rels) (.pure (rels.filterMap fun rel =>
      (rspamdName rel (readRel t (rspamdDkimDir ++ '/' :: rel))).map fun q =>
        dkimKey q.1 q.2 (readRel t (rspamdDkimDir ++ '/' :: rel)))) := by
  induction rels with
  | nil => exact .here _
  | cons rel rels ih =>
    refine reads_readConfig_bind ((ih.bind _).trans (m := 0) ?_)
    rw [List.filterMap_cons]
    cases rspamdName rel (readRel t (rspamdDkimDir ++ '/' :: rel)) <;> exact .here _

/-- The files that `_rspamd_keys` reads. -/
def rspamdRels (t : Tree) : List Str := listConfigFiles t rspamdDkimDir publicSuffix

theorem reads_rspamdKeys :
    Reads treeBox t ((rspamdRels t).length + 1) rspamdKeys (.pure (rspamdKeysOf t)) :=
  reads_listFiles_bind (reads_readRspamd _)

theorem reads_candidates (h : backendOf t = .rspamd) :
    Reads treeBox t ((rspamdRels t).length + (opendkimKeysOf t).length + 3)
      dkimMigrationCandidates (.pure (candidatesOf t)) := by
  have hc : candidatesOf t = unmigrated (opendkimKeysOf t) (rspamdKeysOf t) :=
    if_neg (not_not.mpr h)
  have hr := (reads_rspamdKeys (t := t)).bind fun migrated => opendkimKeys >>= fun keys =>
    (Pure.pure (unmigrated keys migrated) : TreeIo (List Str))
  have ho := (reads_opendkimKeys (t := t)).bind fun keys =>
    (Pure.pure (unmigrated keys (rspamdKeysOf t)) : TreeIo (List Str))
  have hn : (rspamdRels t).length + (opendkimKeysOf t).length + 3 =
      (rspamdRels t).length + 1 + ((opendkimKeysOf t).length + 1) + 1 := by omega
  rw [hc, hn]
  refine reads_dkimBackend_bind ?_
  rw [h]
  exact hr.trans ho

/-- The call gets to its loop. -/
structure Accepted (t : Tree) : Prop where
  backend : backendOf t = .rspamd
  candidates : candidatesOf t ≠ []
  conf : readRel t rspamdDkimSigningConf = []

/-- The commands before the loop. -/
def preamble (t : Tree) : Nat := (rspamdRels t).length + 2 * (opendkimKeysOf t).length + 6

theorem reads_migration (load : Str → PemKey) (h : Accepted t) :
    Reads treeBox t (preamble t) (migrateDkimToRspamd load)
      (copyAndSign load (candidatesOf t) (opendkimKeysOf t)) := by
  have hn : preamble t = (rspamdRels t).length + (opendkimKeysOf t).length + 3 +
      ((opendkimKeysOf t).length + 1 + 1) + 1 := by
    unfold preamble
    omega
  rw [hn]
  refine reads_dkimBackend_bind ?_
  rw [Prog.raiseIf_bind_neg (not_not.mpr h.backend)]
  refine ((reads_candidates h.backend).bind _).trans ?_
  show Reads treeBox t _ (Prog.raiseIf (candidatesOf t = []) _ >>= _) _
  rw [Prog.raiseIf_bind_neg h.candidates]
  refine reads_readConfig_bind ?_
  rw [Prog.raiseIf_bind_neg (not_not.mpr h.conf)]
  exact reads_opendkimKeys.bind _

/-- A call that does not get there changes nothing. -/
theorem always_rejection (load : Str → PemKey) (h : ¬ Accepted t) :
    (migrateDkimToRspamd load).Always treeBox (· = t) t := by
  refine (reads_dkimBackend_bind (.here _)).always ?_
  refine Prog.always_raiseIf_bind.mpr ⟨fun _ => rfl, fun hb => ?_⟩
  refine ((reads_candidates (not_not.mp hb)).bind _).always ?_
  refine Prog.always_raiseIf_bind.mpr ⟨fun _ => rfl, fun hc => ?_⟩
  refine (reads_readConfig_bind (.here _)).always ?_
  exact Prog.always_raiseIf_bind.mpr
    ⟨fun _ => rfl, fun hf => absurd ⟨not_not.mp hb, hc, not_not.mp hf⟩ h⟩

/-- And it does not succeed. -/
theorem accepted_of_run {load : Str → PemKey} {result : DkimMigrationResult} {t' : Tree}
    (h : (migrateDkimToRspamd load).run treeBox t = (.ok result, t')) : Accepted t := by
  unfold migrateDkimToRspamd at h
  rw [(reads_dkimBackend_bind (.here _)).run_eq, Prog.run_raiseIf_bind] at h
  split at h
  · cases h
  · rename_i hb
    rw [((reads_candidates (not_not.mp hb)).bind _).run_eq] at h
    change (Prog.raiseIf (candidatesOf t = []) _ >>= _).run treeBox t = _ at h
    rw [Prog.run_raiseIf_bind] at h
    split at h
    · cases h
    · rename_i hc
      rw [(reads_readConfig_bind (.here _)).run_eq, Prog.run_raiseIf_bind] at h
      split at h
      · cases h
      · rename_i hf
        exact ⟨not_not.mp hb, hc, not_not.mp hf⟩

end

/-! ## What is copied -/

section
variable (load : Str → PemKey) (t : Tree)

/-- The keys that are migrated. -/
def todo : List DkimKey := (opendkimKeysOf t).filter fun k => k.domain ∈ candidatesOf t

def pemOf (k : DkimKey) : Str := readRel t (privateFile k)

def txtOf (k : DkimKey) : Str := readRel t (publicFile k)

def keySizeOf (k : DkimKey) : Nat :=
  match load (pemOf t k) with
  | .rsa size => size
  | _ => 0

def IsRsa (k : DkimKey) : Prop := load (pemOf t k) = .rsa (keySizeOf load t k)

/-- The files that are written for these keys, up to the first that is no RSA
key. -/
def copiesOf : List DkimKey → List (Str × Str)
  | [] => []
  | k :: ks =>
    match load (pemOf t k) with
    | .rsa size =>
      (privateCopy size k, pemOf t k) :: (publicCopy size k, txtOf t k) :: copiesOf ks
    | _ => []

/-- How many of them are written after so many commands: two reads and two
writes a key. -/
def copiesDone (m : Nat) : Nat := 2 * (m / 4) + if m % 4 = 3 then 1 else 0

end

section
variable {load : Str → PemKey} {t : Tree} {ws : List (Str × Str)} {domains : List Str}
  {keys : List DkimKey} {b : Str}

/-- Everything is written under `rspamd`, and to no scratch name. -/
def Copied (ws : List (Str × Str)) : Prop :=
  ∀ w ∈ ws, w.1.head? = some 'r' ∧ ¬ ".tmp".toList <:+ w.1

theorem Copied.append {vs : List (Str × Str)} (h : Copied ws) (h' : Copied vs) :
    Copied (ws ++ vs) := fun w hw => (List.mem_append.mp hw).elim (h w) (h' w)

theorem privateCopy_plain (size : Nat) (k : DkimKey) : ¬ ".tmp".toList <:+ privateCopy size k := by
  intro h
  have hs : privateSuffix <:+ privateCopy size k := List.suffix_append _ _
  exact absurd (List.suffix_of_suffix_length_le h hs (by decide)) (by decide)

theorem publicCopy_plain (size : Nat) (k : DkimKey) : ¬ ".tmp".toList <:+ publicCopy size k := by
  intro h
  have hs : publicSuffix <:+ publicCopy size k := List.suffix_append _ _
  exact absurd (List.suffix_of_suffix_length_le h hs (by decide)) (by decide)

theorem copied_pair (size : Nat) (k : DkimKey) (a b : Str) :
    Copied [(privateCopy size k, a), (publicCopy size k, b)] := by
  intro w hw
  simp only [List.mem_cons, List.not_mem_nil, or_false] at hw
  rcases hw with rfl | rfl
  · exact ⟨rfl, privateCopy_plain size k⟩
  · exact ⟨rfl, publicCopy_plain size k⟩

theorem readRel_writeAll (h : Copied ws) {f : Str} (hf : f.head? = some 'o') :
    readRel (writeAll t ws) f = readRel t f := by
  have hne : lastWrite ws (configPath f) = none := by
    refine lastWrite_eq_none fun w hw e => ?_
    have hw := (h w hw).1
    rw [configPath_inj.mp e, hf] at hw
    exact absurd hw (by decide)
  have hplain : ∀ w ∈ ws, configPath f ≠ configPath (scratch w.1) := fun w hw e => by
    obtain ⟨c, tail⟩ := List.head?_eq_some_iff.mp (h w hw).1
    rw [configPath_inj.mp e, scratch, tail] at hf
    exact absurd hf (by simp)
  rw [readRel, Files.read, filesOf_writeAll hplain, hne]
  rfl

theorem pemOf_writeAll (h : Copied ws) (k : DkimKey) : pemOf (writeAll t ws) k = pemOf t k :=
  readRel_writeAll h rfl

theorem txtOf_writeAll (h : Copied ws) (k : DkimKey) : txtOf (writeAll t ws) k = txtOf t k :=
  readRel_writeAll h rfl

theorem isRsa_iff {k : DkimKey} : IsRsa load t k ↔ ∃ size, load (pemOf t k) = .rsa size := by
  refine ⟨fun h => ⟨_, h⟩, fun ⟨size, h⟩ => ?_⟩
  rw [IsRsa, keySizeOf, h]

theorem copiesDone_add_four (m : Nat) : copiesDone (m + 4) = copiesDone m + 2 := by
  have h₁ : (m + 4) / 4 = m / 4 + 1 := Nat.add_div_right m (by decide)
  have h₂ : (m + 4) % 4 = m % 4 := Nat.add_mod_right m 4
  rw [copiesDone, h₁, h₂, copiesDone]
  omega

/-- What the loop has written after `m` commands. -/
theorem cut_copyKeys (hws : Copied ws) (m : Nat) :
    (copyKeys load domains keys b).cut treeBox m (writeAll t ws) =
      writeAll t (ws ++ (copiesOf load t (keys.filter (·.domain ∈ domains))).take
        (copiesDone m)) := by
  induction keys generalizing ws m b with
  | nil =>
    have e : (copyKeys load domains [] b).cut treeBox m (writeAll t ws) = writeAll t ws := by
      cases m <;> rfl
    rw [e, List.filter_nil, copiesOf, List.take_nil, List.append_nil]
  | cons k ks ih =>
    unfold copyKeys
    by_cases hd : k.domain ∈ domains
    · rw [if_neg (not_not.mpr hd), List.filter_cons_of_pos (by simpa using hd)]
      have hpem : readRel (writeAll t ws) (privateFile k) = pemOf t k := pemOf_writeAll hws k
      have htxt : readRel (writeAll t ws) (publicFile k) = txtOf t k := txtOf_writeAll hws k
      match m with
      | 0 => simp [copiesDone]
      | 1 =>
        rw [cut_readConfig_bind, Prog.cut_zero]
        simp [copiesDone]
      | m + 2 =>
        rw [cut_readConfig_bind, cut_readConfig_bind, hpem, htxt, rsaKeySize, copiesOf]
        cases load (pemOf t k) with
        | rsa size =>
          rw [Prog.pure_bind]
          match m with
          | 0 => simp [copiesDone]
          | 1 =>
            have hone : copiesDone (1 + 2) = 1 := rfl
            rw [cut_writeConfig_bind, Prog.cut_zero, hone, List.take_succ_cons, List.take_zero,
              writeAll_append]
            rfl
          | m + 2 =>
            have hpair : writeTree (writeTree (writeAll t ws) (privateCopy size k) (pemOf t k))
                (publicCopy size k) (txtOf t k) =
                writeAll t (ws ++ [(privateCopy size k, pemOf t k), (publicCopy size k, txtOf t k)]) := by
              rw [writeAll_append]
              rfl
            rw [cut_writeConfig_bind, cut_writeConfig_bind, hpair,
              ih (hws.append (copied_pair _ _ _ _)), copiesDone_add_four, List.append_assoc]
            rfl
        | other => cases m <;> simp [Prog.cut]
        | raises => cases m <;> simp [Prog.cut]
    · rw [if_pos hd, List.filter_cons_of_neg (by simpa using hd)]
      exact ih hws m

/-- The text of the blocks of these keys. -/
def blocksText (load : Str → PemKey) (t : Tree) (ks : List DkimKey) : Str :=
  (ks.map fun k => keyBlock (keySizeOf load t k) k).flatMap blockText

/-- The loop gets to its end when every key is an RSA key. -/
theorem run_copyKeys (hws : Copied ws)
    (h : ∀ k ∈ keys.filter (·.domain ∈ domains), IsRsa load t k) :
    (copyKeys load domains keys b).run treeBox (writeAll t ws) =
        (.ok (b ++ blocksText load t (keys.filter (·.domain ∈ domains))),
          writeAll t (ws ++ copiesOf load t (keys.filter (·.domain ∈ domains)))) ∧
      (copyKeys load domains keys b).steps treeBox (writeAll t ws) =
        4 * (keys.filter (·.domain ∈ domains)).length := by
  induction keys generalizing ws b with
  | nil => simp [copyKeys, Prog.run, Prog.steps, blocksText, copiesOf]
  | cons k ks ih =>
    unfold copyKeys
    by_cases hd : k.domain ∈ domains
    · rw [List.filter_cons_of_pos (by simpa using hd)] at h ⊢
      rw [if_neg (not_not.mpr hd)]
      obtain ⟨hk, hks⟩ := List.forall_mem_cons.mp h
      have hpem : readRel (writeAll t ws) (privateFile k) = pemOf t k := pemOf_writeAll hws k
      have htxt : readRel (writeAll t ws) (publicFile k) = txtOf t k := txtOf_writeAll hws k
      have hpair : writeTree (writeTree (writeAll t ws) (privateCopy (keySizeOf load t k) k) (pemOf t k))
          (publicCopy (keySizeOf load t k) k) (txtOf t k) =
          writeAll t (ws ++ [(privateCopy (keySizeOf load t k) k, pemOf t k),
            (publicCopy (keySizeOf load t k) k, txtOf t k)]) := by
        rw [writeAll_append]
        rfl
      have hcopies : copiesOf load t (k :: ks.filter (·.domain ∈ domains)) =
          [(privateCopy (keySizeOf load t k) k, pemOf t k),
            (publicCopy (keySizeOf load t k) k, txtOf t k)] ++
              copiesOf load t (ks.filter (·.domain ∈ domains)) := by
        rw [copiesOf, hk]
        rfl
      obtain ⟨i₁, i₂⟩ := ih (b := b ++ blockText (keyBlock (keySizeOf load t k) k))
        (hws.append (copied_pair (keySizeOf load t k) k (pemOf t k) (txtOf t k))) hks
      constructor
      · rw [run_readConfig_bind, run_readConfig_bind, hpem, htxt, rsaKeySize, hk]
        simp only [Prog.pure_bind]
        rw [run_writeConfig_bind, run_writeConfig_bind, hpair, i₁, hcopies, List.append_assoc,
          List.append_assoc]
        rfl
      · rw [steps_readConfig_bind, steps_readConfig_bind, hpem, htxt, rsaKeySize, hk]
        simp only [Prog.pure_bind]
        rw [steps_writeConfig_bind, steps_writeConfig_bind, hpair, i₂, List.length_cons]
        omega
    · rw [List.filter_cons_of_neg (by simpa using hd)] at h ⊢
      rw [if_pos hd]
      exact ih hws h

/-- It ends with an error at a key that is none. -/
theorem error_copyKeys (hws : Copied ws)
    (h : ¬ ∀ k ∈ keys.filter (·.domain ∈ domains), IsRsa load t k) :
    ∃ e, ((copyKeys load domains keys b).run treeBox (writeAll t ws)).1 = .error e := by
  induction keys generalizing ws b with
  | nil => exact absurd (fun k hk => absurd hk List.not_mem_nil) h
  | cons k ks ih =>
    unfold copyKeys
    by_cases hd : k.domain ∈ domains
    · rw [List.filter_cons_of_pos (by simpa using hd)] at h
      rw [if_neg (not_not.mpr hd)]
      have hpem : readRel (writeAll t ws) (privateFile k) = pemOf t k := pemOf_writeAll hws k
      rw [run_readConfig_bind, run_readConfig_bind, hpem, rsaKeySize]
      cases hl : load (pemOf t k) with
      | rsa size =>
        rw [Prog.pure_bind, run_writeConfig_bind, run_writeConfig_bind]
        have hpair : writeTree (writeTree (writeAll t ws) (privateCopy size k) (pemOf t k))
            (publicCopy size k) (readRel (writeAll t ws) (publicFile k)) =
            writeAll t (ws ++ [(privateCopy size k, pemOf t k),
              (publicCopy size k, readRel (writeAll t ws) (publicFile k))]) := by
          rw [writeAll_append]
          rfl
        rw [hpair]
        have hks : ¬ ∀ k ∈ ks.filter (·.domain ∈ domains), IsRsa load t k := fun hks =>
          h (List.forall_mem_cons.mpr ⟨isRsa_iff.mpr ⟨size, hl⟩, hks⟩)
        exact ih (hws.append (copied_pair _ _ _ _)) hks
      | other => exact ⟨_, rfl⟩
      | raises => exact ⟨_, rfl⟩
    · rw [List.filter_cons_of_neg (by simpa using hd)] at h
      rw [if_pos hd]
      exact ih hws h

end

/-! ## The whole call -/

section
variable {load : Str → PemKey} {t : Tree}

theorem copied_nil : Copied [] := fun _ hw => absurd hw List.not_mem_nil

theorem reads_listDkimKeys (t : Tree) : ∃ n keys, Reads treeBox t n listDkimKeys (.pure keys) := by
  by_cases hb : backendOf t = .rspamd
  · refine ⟨(rspamdRels t).length + 1 + 1, (rspamdKeysOf t).insertionSort ByName,
      reads_dkimBackend_bind ?_⟩
    rw [if_pos hb]
    exact reads_rspamdKeys.bind _
  · refine ⟨(opendkimKeysOf t).length + 1 + 1, (opendkimKeysOf t).insertionSort ByName,
      reads_dkimBackend_bind ?_⟩
    rw [if_neg hb]
    exact reads_opendkimKeys.bind _

theorem run_copyTodo (h : ∀ k ∈ todo t, IsRsa load t k) :
    (copyKeys load (candidatesOf t) (opendkimKeysOf t) []).run treeBox t =
        (.ok (blocksText load t (todo t)), writeAll t (copiesOf load t (todo t))) ∧
      (copyKeys load (candidatesOf t) (opendkimKeysOf t) []).steps treeBox t =
        4 * (todo t).length := run_copyKeys copied_nil h

theorem error_copyTodo (h : ¬ ∀ k ∈ todo t, IsRsa load t k) :
    ∃ e, ((copyKeys load (candidatesOf t) (opendkimKeysOf t) []).run treeBox t).1 = .error e :=
  error_copyKeys copied_nil h

/-- The files once everything is written. -/
def signedTree (load : Str → PemKey) (t : Tree) : Tree :=
  writeTree (writeAll t (copiesOf load t (todo t))) rspamdDkimSigningConf
    (signingConf (blocksText load t (todo t)))

theorem always_listDkimKeys_bind {α : Type} (u : Tree) (f : List DkimKey → α) :
    (listDkimKeys >>= fun keys => (Prog.pure (f keys) : TreeIo α)).Always treeBox (· = u) u := by
  obtain ⟨n, keys, h⟩ := reads_listDkimKeys u
  exact (h.bind _).always rfl

/-- What a call that gets to its loop has written after so many commands, when
all keys are RSA keys: the copies one by one, and in the end the
configuration. -/
theorem cut_migration (ha : Accepted t) (h : ∀ k ∈ todo t, IsRsa load t k) (n : Nat) :
    (migrateDkimToRspamd load).cut treeBox n t =
      if n ≤ preamble t + 4 * (todo t).length then
        writeAll t ((copiesOf load t (todo t)).take (copiesDone (n - preamble t)))
      else signedTree load t := by
  have hreads := reads_migration load ha
  obtain ⟨hrun, hsteps⟩ := run_copyTodo h
  by_cases hn : n ≤ preamble t
  · have hzero : n - preamble t = 0 := Nat.sub_eq_zero_of_le hn
    rw [hreads.cut_le hn, if_pos (Nat.le_add_right_of_le hn), hzero]
    rfl
  · obtain ⟨m, rfl⟩ := Nat.exists_eq_add_of_le (Nat.le_of_not_le hn)
    rw [hreads.cut_add, Nat.add_sub_cancel_left, copyAndSign]
    by_cases hm : m ≤ 4 * (todo t).length
    · rw [if_pos (Nat.add_le_add_left hm _), Prog.cut_bind_of_le (hm.trans_eq hsteps.symm)]
      exact cut_copyKeys copied_nil m
    · rw [if_neg (by omega),
        Prog.cut_bind_of_ge hrun (hsteps.trans_le (Nat.le_of_not_le hm)), hsteps]
      obtain ⟨j, hj⟩ : ∃ j, m - 4 * (todo t).length = j + 1 := ⟨m - 4 * (todo t).length - 1, by omega⟩
      rw [hj, cut_writeConfig_bind]
      exact (always_listDkimKeys_bind _ _).cut j

theorem run_migration (ha : Accepted t) (h : ∀ k ∈ todo t, IsRsa load t k) :
    ∃ keys, (migrateDkimToRspamd load).run treeBox t =
      (.ok ⟨keys, candidatesOf t, true⟩, signedTree load t) := by
  obtain ⟨n, keys, hl⟩ := reads_listDkimKeys (signedTree load t)
  refine ⟨keys, ?_⟩
  rw [(reads_migration load ha).run_eq, copyAndSign, Prog.run_bind, (run_copyTodo h).1]
  simp only
  rw [run_writeConfig_bind]
  exact (hl.bind _).run_eq

/-- With another key among them, the call ends with an error, and what it has
written are copies. -/
theorem stop_migration (ha : Accepted t) (h : ¬ ∀ k ∈ todo t, IsRsa load t k) :
    (migrateDkimToRspamd load).Errs treeBox t ∧
      ((migrateDkimToRspamd load).run treeBox t).2 = writeAll t (copiesOf load t (todo t)) ∧
      ∀ n, (migrateDkimToRspamd load).cut treeBox n t =
        writeAll t ((copiesOf load t (todo t)).take (copiesDone (n - preamble t))) := by
  have hreads := reads_migration load ha
  obtain ⟨e, he⟩ := error_copyTodo h
  have hcut (m : Nat) : (copyAndSign load (candidatesOf t) (opendkimKeysOf t)).cut treeBox m t =
      writeAll t ((copiesOf load t (todo t)).take (copiesDone m)) := by
    rw [copyAndSign, Prog.cut_bind_of_error m he]
    exact cut_copyKeys copied_nil m
  have hrun := Prog.run_bind_of_error (f := fun domainBlocks => do
    onTree (writeConfig rspamdDkimSigningConf (signingConf domainBlocks))
    let keys ← listDkimKeys
    return (⟨keys, candidatesOf t, true⟩ : DkimMigrationResult)) he
  refine ⟨⟨e, ?_⟩, ?_, fun n => ?_⟩
  · rw [hreads.run_eq, copyAndSign, hrun]
  · -- a cut late enough shows the whole run
    have hall : (copiesOf load t (todo t)).length ≤ copiesDone
        ((copyAndSign load (candidatesOf t) (opendkimKeysOf t)).steps treeBox t +
          4 * (copiesOf load t (todo t)).length) := by
      unfold copiesDone
      omega
    have hend := hcut ((copyAndSign load (candidatesOf t) (opendkimKeysOf t)).steps treeBox t +
      4 * (copiesOf load t (todo t)).length)
    rw [Prog.cut_of_steps_le (Nat.le_add_right _ _), List.take_of_length_le hall] at hend
    rw [hreads.run_eq, hend]
  · by_cases hn : n ≤ preamble t
    · have hzero : n - preamble t = 0 := Nat.sub_eq_zero_of_le hn
      rw [hreads.cut_le hn, hzero]
      rfl
    · obtain ⟨m, rfl⟩ := Nat.exists_eq_add_of_le (Nat.le_of_not_le hn)
      rw [hreads.cut_add, Nat.add_sub_cancel_left, hcut]

end

end MailserverUi.L3.Dkim
