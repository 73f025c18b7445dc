import MailserverUi.L3Service.MailboxSpec
import MailserverUi.L3Service.QuotaUsage

/-!
# The usage of every mail account

The rows of `doveadm` have the address of an account as it is stored, the report
has it as `EmailStr` returns it.

Results:
* `usages_eq`: the loop gives each reported address what the rows of that name
  say, in their order.
* `reports_of_unchanged`: where `EmailStr` changes no address, that is what the
  account's own rows say.
* `sound_iff`: for every content of the account file, every report is right exactly
  when `EmailStr` refuses an address or changes none.
* `lost_usage`: an account with a full mailbox, reported as empty.
-/
namespace MailserverUi.L4.UsageReport

open Py L1.MailFiles L2.Errors L2.Container L3.MailboxService L3.MailboxSpec L3.QuotaUsage

/-! ## The loop over the rows -/

/-- The rows of an address. -/
def rowsFor (rows : List QuotaRow) (a : Str) : List QuotaRow :=
  rows.filter fun row => row.address = a

/-- What the rows of an address say. -/
def usageOf (rows : List QuotaRow) (a : Str) : MailboxUsage :=
  (rowsFor rows a).foldl MailboxUsage.credited { email := a }

theorem credit_eq (d : Dict Str MailboxUsage) (row : QuotaRow) :
    credit d row = d.mapVal fun e u => if e = row.address then u.credited row else u := by
  refine Dict.ext_keys ?_ fun e => ?_
  · rw [Dict.keys_mapVal, credit]
    cases h : d.get? row.address with
    | none => rfl
    | some u => rw [Dict.keys_set, if_pos (Dict.mem_keys_of_get? h)]
  · rw [Dict.get?_mapVal, credit]
    cases h : d.get? row.address with
    | none =>
      by_cases he : e = row.address
      · rw [he, h]
        rfl
      · simp only [if_neg he, Option.map_id']
    | some u =>
      simp only [Dict.get?_set]
      by_cases he : e = row.address
      · rw [if_pos he, he, h]
        simp
      · simp only [if_neg he, Option.map_id']

/-- Every address gets what its own rows say. -/
theorem usages_eq (rows : List QuotaRow) (d : Dict Str MailboxUsage) :
    rows.foldl credit d =
      d.mapVal fun e u => (rowsFor rows e).foldl MailboxUsage.credited u := by
  induction rows generalizing d with
  | nil => exact Dict.ext_keys (Dict.keys_mapVal d _).symm fun e => by simp [Dict.get?_mapVal, rowsFor]
  | cons row rows ih =>
    rw [List.foldl_cons, ih, credit_eq, Dict.mapVal_mapVal]
    congr
    funext e u
    unfold rowsFor
    by_cases he : e = row.address
    · rw [if_pos he, List.filter_cons_of_pos (by simp [he]), List.foldl_cons]
    · rw [if_neg he, List.filter_cons_of_neg (by simpa using Ne.symm he)]

section
variable (rows : List QuotaRow) (a : Str)

theorem email_usageOf : (usageOf rows a).email = a := by
  have hstep (u : MailboxUsage) (row : QuotaRow) : (u.credited row).email = u.email := by
    unfold MailboxUsage.credited
    split
    · rfl
    · split <;> rfl
  unfold usageOf
  induction rowsFor rows a using List.reverseRecOn with
  | nil => rfl
  | append_singleton l row ih => rw [List.foldl_append, List.foldl_cons, List.foldl_nil, hstep, ih]

/-- The last row of a kind that an address has. -/
def lastRow (kind : QuotaRow → Bool) : Option QuotaRow := ((rowsFor rows a).filter kind).getLast?

theorem usedBytes_usageOf :
    (usageOf rows a).usedBytes = ((lastRow rows a isStorage).map QuotaRow.usedBytes).getD 0 := by
  refine foldl_last (g := MailboxUsage.usedBytes) (fun u row h => ?_) (fun u row h => ?_) _ _
  · simp [MailboxUsage.credited, h]
  · rw [MailboxUsage.credited, if_neg (by simp [h])]
    split <;> rfl

theorem limitBytes_usageOf :
    (usageOf rows a).limitBytes = ((lastRow rows a isStorage).map QuotaRow.limitBytes).getD none := by
  refine foldl_last (g := MailboxUsage.limitBytes) (fun u row h => ?_) (fun u row h => ?_) _ _
  · simp [MailboxUsage.credited, h]
  · rw [MailboxUsage.credited, if_neg (by simp [h])]
    split <;> rfl

theorem messageCount_usageOf :
    (usageOf rows a).messageCount =
      ((lastRow rows a isMessage).map QuotaRow.messageCount).getD 0 := by
  refine foldl_last (g := MailboxUsage.messageCount) (fun u row h => ?_) (fun u row h => ?_) _ _
  · have hs : isStorage row = false := by
      have hm : row.kind = "MESSAGE".toList := of_decide_eq_true h
      simp [isStorage, hm]
    simp [MailboxUsage.credited, h, hs]
  · simp only [MailboxUsage.credited, h]
    split <;> rfl

/-- A limit is none, or is not zero. -/
theorem limitBytes_ne_zero (row : QuotaRow) : row.limitBytes ≠ some 0 := by
  intro h
  obtain ⟨n, hn, he⟩ := Option.map_eq_some_iff.mp h
  have hne : n ≠ 0 := by simpa using (Option.filter_eq_some_iff.mp hn).2
  simp only [doveadmStorageUnit] at he
  omega

end

/-! ## What is reported -/

section
variable (emailStr : Str → Option Str) (percentOf : Int → Int → Option Int) (s : Files)

/-- The addresses of the accounts, as they are stored. -/
def stored : List Str := listedOf (lines s accountsFilename)

/-- The mailboxes before they are sorted. -/
def found : Option (List Mailbox) :=
  (stored s).mapM fun email =>
    (emailStr email).map fun e => ⟨e, afterLast '@' email, (quotas s).get? email⟩

theorem run_listMailboxes :
    (listMailboxes emailStr).run box s =
      ((found emailStr s).elim (.error .internal) fun ms =>
        .ok (ms.insertionSort fun m n => m.email ≤ n.email), s) := by
  rw [listMailboxes, run_readQuotas_bind, run_readLines_bind]
  change (Prog.ofOption ApiError.internal (found emailStr s) >>= _).run box s = _
  cases found emailStr s <;> rfl

/-- The usages without percentages. -/
def usagesOf (ms : List Mailbox) (rows : List QuotaRow) : List MailboxUsage :=
  (noUsage ms).keys.map (usageOf rows)

theorem values_eq (ms : List Mailbox) (rows : List QuotaRow) :
    (rows.foldl credit (noUsage ms)).items.map Prod.snd = usagesOf ms rows := by
  rw [usages_eq, Dict.mapVal, usagesOf, Dict.keys, List.map_map, List.map_map]
  refine List.map_congr_left fun p hp => ?_
  obtain ⟨m, -, rfl⟩ := List.mem_map.mp (Dict.mem_of_mem_ofPairs hp)
  rfl

theorem run_getUsage (output : Str) :
    (getUsage emailStr percentOf output).run box s =
      (((found emailStr s).bind fun ms =>
        (usagesOf (ms.insertionSort fun m n => m.email ≤ n.email) (rowsOf output)).mapM
          (MailboxUsage.withPercent percentOf)).elim (.error .internal) fun us =>
            .ok (summaryOf (us.insertionSort fun u v => v.usedBytes ≤ u.usedBytes)), s) := by
  rw [getUsage, Prog.run_bind, run_listMailboxes]
  cases found emailStr s with
  | none => rfl
  | some ms =>
    simp only [Option.elim_some, Option.bind_some, values_eq]
    cases (usagesOf (ms.insertionSort fun m n => m.email ≤ n.email) (rowsOf output)).mapM
      (MailboxUsage.withPercent percentOf) <;> rfl

/-- A report on the accounts and the rows. -/
structure Reports (output : Str) (r : MailboxUsageSummary) : Prop where
  addresses : ∀ e, (∃ u ∈ r.mailboxes, u.email = e) ↔
    ∃ ms, (listMailboxes emailStr).run box s = (.ok ms, s) ∧ ∃ m ∈ ms, m.email = e
  once : (r.mailboxes.map MailboxUsage.email).Nodup
  /-- `a` is an address as it is stored, and `u` what is reported of it -/
  counted : ∀ a ∈ stored s, ∀ u ∈ r.mailboxes, emailStr a = some u.email →
    ∀ storage message, lastRow (rowsOf output) a isStorage = some storage →
      lastRow (rowsOf output) a isMessage = some message →
      u.usedBytes = 1024 * (parseDoveadmAmount storage.value).getD 0 ∧
      u.limitBytes = ((parseDoveadmAmount storage.limit).filter (· ≠ 0)).map (1024 * ·) ∧
      u.messageCount = (parseDoveadmAmount message.value).getD 0
  idle : ∀ a ∈ stored s, ∀ u ∈ r.mailboxes, emailStr a = some u.email →
    rowsFor (rowsOf output) a = [] →
      u.usedBytes = 0 ∧ u.limitBytes = none ∧ u.messageCount = 0
  totalUsed : r.totalUsedBytes = (r.mailboxes.map MailboxUsage.usedBytes).sum
  totalLimit : r.totalLimitBytes =
    if r.mailboxes ≠ [] ∧ ∀ u ∈ r.mailboxes, u.limitBytes ≠ none then
      some (r.mailboxes.map fun u => u.limitBytes.getD 0).sum else none
  ordered : r.mailboxes.Pairwise fun u v => v.usedBytes ≤ u.usedBytes

/-- Two outputs in which every address has the same rows in the same order. -/
def Shuffled (output output' : Str) : Prop :=
  ∀ a, rowsFor (rowsOf output) a = rowsFor (rowsOf output') a

/-- Every report that is returned is right, and the order of rows of different
addresses does not matter. -/
structure Sound : Prop where
  reports : ∀ output r, (getUsage emailStr percentOf output).run box s = (.ok r, s) →
    Reports emailStr s output r
  shuffled : ∀ output output', Shuffled output output' →
    (getUsage emailStr percentOf output).run box s =
      (getUsage emailStr percentOf output').run box s

variable {emailStr percentOf s}

theorem shuffled_getUsage {output output' : Str} (h : Shuffled output output') :
    (getUsage emailStr percentOf output).run box s =
      (getUsage emailStr percentOf output').run box s := by
  have husages (ms : List Mailbox) :
      usagesOf ms (rowsOf output) = usagesOf ms (rowsOf output') := by
    refine List.map_congr_left fun e _ => ?_
    rw [usageOf, h e, usageOf]
  simp only [run_getUsage, husages]

/-! ## A report, by the rows -/

/-- Two usages but for the percentage. -/
structure SameUsage (u v : MailboxUsage) : Prop where
  email : v.email = u.email
  used : v.usedBytes = u.usedBytes
  limit : v.limitBytes = u.limitBytes
  messages : v.messageCount = u.messageCount

theorem withPercent_same {u v : MailboxUsage} (h : u.withPercent percentOf = some v) :
    SameUsage u v := by
  unfold MailboxUsage.withPercent at h
  split at h
  · cases h
    exact ⟨rfl, rfl, rfl, rfl⟩
  · obtain ⟨p, -, rfl⟩ := Option.map_eq_some_iff.mp h
    exact ⟨rfl, rfl, rfl, rfl⟩

theorem same_of_mapM {l us : List MailboxUsage}
    (h : l.mapM (MailboxUsage.withPercent percentOf) = some us) :
    us.map MailboxUsage.email = l.map MailboxUsage.email ∧
      ∀ v ∈ us, ∃ u ∈ l, SameUsage u v := by
  have hall := forall₂_of_mapM h
  clear h
  induction hall with
  | nil => exact ⟨rfl, fun v hv => absurd hv List.not_mem_nil⟩
  | @cons u v l us huv _ ih =>
    have hsame := withPercent_same huv
    refine ⟨by rw [List.map_cons, List.map_cons, hsame.email, ih.1], ?_⟩
    exact List.forall_mem_cons.mpr ⟨⟨u, List.mem_cons_self, hsame⟩, fun w hw =>
      (ih.2 w hw).imp fun _ hx => ⟨List.mem_cons_of_mem u hx.1, hx.2⟩⟩

theorem email_usagesOf (ms : List Mailbox) (rows : List QuotaRow) :
    (usagesOf ms rows).map MailboxUsage.email = (noUsage ms).keys := by
  rw [usagesOf, List.map_map]
  calc (noUsage ms).keys.map (MailboxUsage.email ∘ usageOf rows)
      = (noUsage ms).keys.map id := List.map_congr_left fun a _ => email_usageOf rows a
    _ = (noUsage ms).keys := List.map_id _

theorem mem_keys_noUsage {ms : List Mailbox} {e : Str} :
    e ∈ (noUsage ms).keys ↔ ∃ m ∈ ms, m.email = e := by
  rw [noUsage, Dict.mem_keys_ofPairs, List.map_map, List.mem_map]
  rfl

/-- The addresses of a report that was returned, and what each has. -/
theorem reported {output : Str} {r : MailboxUsageSummary}
    (h : (getUsage emailStr percentOf output).run box s = (.ok r, s)) :
    ∃ ms us, (listMailboxes emailStr).run box s = (.ok ms, s) ∧ r = summaryOf us ∧
      (us.map MailboxUsage.email).Perm (noUsage ms).keys ∧
      (us.Pairwise fun u v => v.usedBytes ≤ u.usedBytes) ∧
      ∀ u ∈ us, SameUsage (usageOf (rowsOf output) u.email) u := by
  rw [run_getUsage, Prod.mk.injEq] at h
  obtain ⟨h, -⟩ := h
  cases hf : found emailStr s with
  | none =>
    rw [hf] at h
    cases h
  | some ms =>
    rw [hf, Option.bind_some] at h
    cases hm : (usagesOf (ms.insertionSort fun m n => m.email ≤ n.email) (rowsOf output)).mapM
        (MailboxUsage.withPercent percentOf) with
    | none =>
      rw [hm] at h
      cases h
    | some us =>
      rw [hm, Option.elim_some, Except.ok.injEq] at h
      obtain ⟨hemail, hsame⟩ := same_of_mapM hm
      have hperm := List.perm_insertionSort
        (fun u v : MailboxUsage => v.usedBytes ≤ u.usedBytes) us
      have : Std.Total fun u v : MailboxUsage => v.usedBytes ≤ u.usedBytes :=
        ⟨fun u v => le_total v.usedBytes u.usedBytes⟩
      have : IsTrans MailboxUsage fun u v => v.usedBytes ≤ u.usedBytes :=
        ⟨fun _ _ _ huv hvw => hvw.trans huv⟩
      refine ⟨ms.insertionSort fun m n => m.email ≤ n.email, _, ?_, h.symm, ?_,
        List.pairwise_insertionSort _ us, fun v hv => ?_⟩
      · rw [run_listMailboxes, hf, Option.elim_some]
      · rw [← email_usagesOf _ (rowsOf output), ← hemail]
        exact hperm.map _
      · obtain ⟨u, hu, huv⟩ := hsame v (hperm.mem_iff.mp hv)
        obtain ⟨a, -, rfl⟩ := List.mem_map.mp hu
        have hva : v.email = a := huv.email.trans (email_usageOf _ a)
        rw [hva]
        exact huv

/-- Where no address is changed, a report is what the rows of each account say. -/
theorem reports_of_unchanged (hun : ∀ a ∈ stored s, emailStr a = some a) {output : Str}
    {r : MailboxUsageSummary}
    (h : (getUsage emailStr percentOf output).run box s = (.ok r, s)) :
    Reports emailStr s output r := by
  obtain ⟨ms, us, hms, rfl, hkeys, hsorted, hsame⟩ := reported h
  have hown {a : Str} (ha : a ∈ stored s) {u : MailboxUsage} (he : emailStr a = some u.email) :
      u.email = a := Option.some.inj (he.symm.trans (hun a ha))
  have hcapped : (∀ u ∈ us, u.limitBytes.getD 0 ≠ 0) ↔ ∀ u ∈ us, u.limitBytes ≠ none := by
    refine forall₂_congr fun u hu => ?_
    have hzero : u.limitBytes ≠ some 0 := by
      rw [(hsame u hu).limit, limitBytes_usageOf]
      cases lastRow (rowsOf output) u.email isStorage with
      | none => exact fun e => by cases e
      | some row => exact limitBytes_ne_zero row
    cases hl : u.limitBytes with
    | none => simp
    | some l =>
      rw [hl] at hzero
      simpa using hzero
  refine ⟨fun e => ?_, ?_, ?_, ?_, rfl, ?_, hsorted⟩
  · rw [← List.mem_map]
    change e ∈ us.map MailboxUsage.email ↔ _
    rw [hkeys.mem_iff, mem_keys_noUsage]
    constructor
    · exact fun hm => ⟨ms, hms, hm⟩
    · rintro ⟨ms', hms', hm⟩
      rw [hms] at hms'
      cases hms'
      exact hm
  · exact hkeys.nodup_iff.mpr (noUsage ms).nodup
  · intro a ha u hu he storage message hstorage hmessage
    obtain rfl := hown ha he
    obtain ⟨-, hused, hlimit, hmessages⟩ := hsame u hu
    rw [hused, hlimit, hmessages, usedBytes_usageOf, limitBytes_usageOf, messageCount_usageOf,
      hstorage, hmessage]
    refine ⟨Int.mul_comm _ _, ?_, rfl⟩
    exact congrArg (fun f => ((parseDoveadmAmount storage.limit).filter (· ≠ 0)).map f)
      (funext fun n => Int.mul_comm n 1024)
  · intro a ha u hu he hrows
    obtain rfl := hown ha he
    obtain ⟨-, hused, hlimit, hmessages⟩ := hsame u hu
    rw [hused, hlimit, hmessages, usageOf, hrows]
    exact ⟨rfl, rfl, rfl⟩
  · simp only [summaryOf, everyAccountCapped, hcapped]

end

/-! ## A changed address -/

section
variable {emailStr : Str → Option Str} {percentOf : Int → Int → Option Int} {s : Files} {a : Str}

theorem stored_spec (h : a ∈ stored s) : IsNormal a ∧ OneLine a := by
  obtain ⟨l, hl, rfl⟩ := List.mem_map.mp (List.mem_filter.mp h).1
  exact ⟨splitPair_isNormal '|' l, (splitPair_oneLine (isLine_of_mem_lines hl).oneLine).1⟩

def storageCells : Str := "User quota\tSTORAGE\t1\t-\t0".toList
def messageCells : Str := "User quota\tMESSAGE\t1\t-\t0".toList

/-- A kilobyte and a message in the mailbox of `a`. -/
def outputOf (a : Str) : Str :=
  unlines ["Username\tQuota name\tType\tValue\tLimit\t%".toList, a ++ '\t' :: storageCells,
    a ++ '\t' :: messageCells]

def storageRow (a : Str) : QuotaRow := ⟨a, "STORAGE".toList, "1".toList, "-".toList⟩
def messageRow (a : Str) : QuotaRow := ⟨a, "MESSAGE".toList, "1".toList, "-".toList⟩

theorem rowOf_cells (h : '\t' ∉ a) {r q k v l : Str} {t : List Str}
    (hr : split '\t' r = q :: k :: v :: l :: t) :
    rowOf (a ++ '\t' :: r) = some ⟨lower (strip a), strip k, strip v, strip l⟩ := by
  have hne : ∀ d ∈ a, (d == '\t') = false := fun d hd => by
    simpa using fun e : d = '\t' => h (e ▸ hd)
  have hsplit : split '\t' (a ++ '\t' :: r) = a :: split '\t' r :=
    List.splitOnP_append_cons_of_forall_mem hne '\t' rfl r
  rw [rowOf, hsplit, hr]

theorem rowsOf_outputOf (h : a ∈ stored s) (ht : '\t' ∉ a) :
    rowsOf (outputOf a) = [storageRow a, messageRow a] := by
  obtain ⟨hnormal, hline⟩ := stored_spec h
  have ha : lower (strip a) = a := hnormal.eq
  have hlines : splitlines (outputOf a) = _ := splitlines_unlines fun l hl => by
    simp only [List.mem_cons, List.not_mem_nil, or_false] at hl
    rcases hl with rfl | rfl | rfl
    · decide
    · exact hline.append (by decide)
    · exact hline.append (by decide)
  have hstorage : rowOf (a ++ '\t' :: storageCells) = some (storageRow a) := by
    rw [rowOf_cells ht (q := "User quota".toList) (k := "STORAGE".toList) (v := "1".toList)
      (l := "-".toList) (t := ["0".toList]) (by decide), ha]
    rfl
  have hmessage : rowOf (a ++ '\t' :: messageCells) = some (messageRow a) := by
    rw [rowOf_cells ht (q := "User quota".toList) (k := "MESSAGE".toList) (v := "1".toList)
      (l := "-".toList) (t := ["0".toList]) (by decide), ha]
    rfl
  rw [rowsOf, hlines]
  change [_, _].filterMap rowOf = _
  rw [List.filterMap_cons_some hstorage, List.filterMap_cons_some hmessage, List.filterMap_nil]

/-- Without a limit no percentage is computed. -/
theorem returned {output : Str} {ms : List Mailbox} (hf : found emailStr s = some ms)
    (hrows : ∀ row ∈ rowsOf output, row.limitBytes = none) :
    ∃ r, (getUsage emailStr percentOf output).run box s = (.ok r, s) := by
  have hlimit (e : Str) : (usageOf (rowsOf output) e).limitBytes = none := by
    rw [limitBytes_usageOf]
    cases hl : lastRow (rowsOf output) e isStorage with
    | none => rfl
    | some row =>
      have hmem := List.mem_of_mem_filter (List.mem_of_getLast? hl)
      exact hrows row (List.mem_of_mem_filter hmem)
  have hpercent (l : List MailboxUsage) (hl : ∀ u ∈ l, u.limitBytes = none) :
      ∃ us, l.mapM (MailboxUsage.withPercent percentOf) = some us :=
    ⟨_, mapM_eq_filterMap fun u hu => ⟨u, by rw [MailboxUsage.withPercent, hl u hu]; rfl⟩⟩
  obtain ⟨us, hus⟩ := hpercent
    (usagesOf (ms.insertionSort fun m n => m.email ≤ n.email) (rowsOf output)) fun u hu => by
      obtain ⟨e, -, rfl⟩ := List.mem_map.mp hu
      exact hlimit e
  rw [run_getUsage, hf, Option.bind_some, hus]
  exact ⟨_, rfl⟩

theorem found_of_accepted (h : ∀ a ∈ stored s, emailStr a ≠ none) :
    ∃ ms, found emailStr s = some ms :=
  ⟨_, mapM_eq_filterMap fun a ha => by
    obtain ⟨e, he⟩ := Option.ne_none_iff_exists'.mp (h a ha)
    rw [he]
    exact ⟨_, rfl⟩⟩

theorem accepted_of_found {ms : List Mailbox} (hf : found emailStr s = some ms)
    (h : a ∈ stored s) : ∃ m ∈ ms, emailStr a = some m.email := by
  obtain ⟨m, hm, ha⟩ := exists_of_mapM hf h
  obtain ⟨e, he, rfl⟩ := Option.map_eq_some_iff.mp ha
  exact ⟨_, hm, he⟩

theorem lastRow_outputOf (h : a ∈ stored s) (ht : '\t' ∉ a) :
    lastRow (rowsOf (outputOf a)) a isStorage = some (storageRow a) ∧
      lastRow (rowsOf (outputOf a)) a isMessage = some (messageRow a) := by
  have hfor : rowsFor [storageRow a, messageRow a] a = [storageRow a, messageRow a] :=
    List.filter_eq_self.mpr fun row hrow => by
      simp only [List.mem_cons, List.not_mem_nil, or_false] at hrow
      rcases hrow with rfl | rfl <;> exact decide_eq_true rfl
  rw [rowsOf_outputOf h ht, lastRow, lastRow, hfor]
  exact ⟨rfl, rfl⟩

/-- What has the changed address is reported as empty. -/
theorem not_sound_of_changed {e : Str} (hall : ∀ a ∈ stored s, emailStr a ≠ none)
    (h : a ∈ stored s) (ht : '\t' ∉ a) (he : emailStr a = some e) (hne : e ≠ a) :
    ¬ Sound emailStr percentOf s := by
  intro hsound
  obtain ⟨ms, hf⟩ := found_of_accepted hall
  have hrows := rowsOf_outputOf h ht
  obtain ⟨r, hr⟩ : ∃ r, (getUsage emailStr percentOf (outputOf a)).run box s = (.ok r, s) := by
    refine returned hf fun row hrow => ?_
    rw [hrows] at hrow
    simp only [List.mem_cons, List.not_mem_nil, or_false] at hrow
    rcases hrow with rfl | rfl <;> rfl
  have hreports := hsound.reports _ r hr
  obtain ⟨u, hu, hue⟩ : ∃ u ∈ r.mailboxes, u.email = e := by
    obtain ⟨m, hm, hme⟩ := accepted_of_found hf h
    refine (hreports.addresses e).mpr ⟨_, by rw [run_listMailboxes, hf]; rfl, m, ?_, ?_⟩
    · exact (List.mem_insertionSort _).mpr hm
    · exact Option.some.inj (hme.symm.trans he)
  obtain ⟨hstorage, hmessage⟩ := lastRow_outputOf h ht
  have hfull : u.usedBytes = 1024 :=
    (hreports.counted a h u hu (hue ▸ he) _ _ hstorage hmessage).1
  obtain ⟨-, us, -, rfl, -, -, hsame⟩ := reported hr
  have hempty : u.usedBytes = 0 := by
    rw [(hsame u hu).used, hrows, usageOf, rowsFor, hue,
      List.filter_eq_nil_iff.mpr fun row hrow => ?_]
    · rfl
    · simp only [List.mem_cons, List.not_mem_nil, or_false] at hrow
      rcases hrow with rfl | rfl <;> exact fun ha => hne (of_decide_eq_true ha).symm
  omega

theorem sound_of_refused (h : a ∈ stored s) (hr : emailStr a = none) :
    Sound emailStr percentOf s := by
  refine ⟨fun output r hrun => ?_, fun _ _ => shuffled_getUsage⟩
  rw [run_getUsage] at hrun
  cases hf : found emailStr s with
  | none =>
    rw [hf] at hrun
    cases hrun
  | some ms =>
    obtain ⟨m, -, hm⟩ := accepted_of_found hf h
    cases hr.symm.trans hm

end

/-- The usage of the accounts is reported rightly exactly when `EmailStr` refuses an
address, so that nothing is reported, or changes none. -/
theorem sound_iff (emailStr : Str → Option Str) (percentOf : Int → Int → Option Int)
    (hemail : ∀ a e, emailStr a = some e → '\t' ∉ a) (s : Files) :
    Sound emailStr percentOf s ↔
      (∃ a ∈ stored s, emailStr a = none) ∨ ∀ a ∈ stored s, emailStr a = some a := by
  constructor
  · intro hsound
    by_cases hall : ∀ a ∈ stored s, emailStr a ≠ none
    · refine Or.inr fun a ha => ?_
      obtain ⟨e, he⟩ := Option.ne_none_iff_exists'.mp (hall a ha)
      by_cases hne : e = a
      · rw [he, hne]
      · exact absurd hsound (not_sound_of_changed hall ha (hemail a e he) he hne)
    · push Not at hall
      exact Or.inl hall
  · rintro (⟨a, ha, hr⟩ | hun)
    · exact sound_of_refused ha hr
    · exact ⟨fun _ _ => reports_of_unchanged hun, fun _ _ => shuffled_getUsage⟩

/-- `EmailStr`, of one domain that is stored in its ASCII form. -/
def unicodeDomain (a : Str) : Option Str :=
  if '\t' ∈ a then none
  else if a = "a@xn--bcher-kva.de".toList then some "a@bücher.de".toList else some a

def percent (used limit : Int) : Option Int := some (used * 100 / limit)

def only (a : Str) : Files := fun p =>
  if p = configPath accountsFilename then some (a ++ "|h\n".toList) else none

theorem sound_iff_plain :
    Sound unicodeDomain percent (only "a@x.org".toList) ↔
      (∃ a ∈ stored (only "a@x.org".toList), unicodeDomain a = none) ∨
        ∀ a ∈ stored (only "a@x.org".toList), unicodeDomain a = some a :=
  sound_iff unicodeDomain percent (fun a e h ht => by
    rw [unicodeDomain, if_pos ht] at h
    cases h) (only "a@x.org".toList)

/-- The rows have the ASCII form, the account its Unicode form. -/
theorem lost_usage :
    ((getUsage unicodeDomain percent (outputOf "a@xn--bcher-kva.de".toList)).run box
        (only "a@xn--bcher-kva.de".toList)).1 =
      .ok ⟨[{ email := "a@bücher.de".toList }], 0, none⟩ ∧
    rowsOf (outputOf "a@xn--bcher-kva.de".toList) =
      [storageRow "a@xn--bcher-kva.de".toList, messageRow "a@xn--bcher-kva.de".toList] ∧
    ¬ Sound unicodeDomain percent (only "a@xn--bcher-kva.de".toList) := by
  refine ⟨by decide +kernel, by decide +kernel, ?_⟩
  have hstored : stored (only "a@xn--bcher-kva.de".toList) = ["a@xn--bcher-kva.de".toList] := by
    decide +kernel
  refine not_sound_of_changed (a := "a@xn--bcher-kva.de".toList) (e := "a@bücher.de".toList)
    (fun a ha => ?_) ?_ (by decide +kernel) (by decide +kernel) (by decide +kernel)
  · rw [hstored, List.mem_singleton] at ha
    rw [ha]
    decide +kernel
  · rw [hstored]
    exact List.mem_singleton_self _

end MailserverUi.L4.UsageReport
