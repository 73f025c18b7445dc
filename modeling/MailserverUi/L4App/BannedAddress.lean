import MailserverUi.L3Service.Fail2banDaemon

/-!
# The address handed to the ban script

`_validate_ip` is what keeps the text of a request from the arguments of
`setup fail2ban`. `ipaddress` keeps what follows the `%` of an IPv6 address in
the text it answers with, so such a text goes through as it came.

Results:
* `handed_normal_iff`: the arguments of two calls are plain, their own normal
  form and the same for the same address exactly when neither text held a `%`.
* `handed_command`: there is a text that hands a shell command to the script.
-/
namespace MailserverUi.L4.BannedAddress

open Py L1.IpAddress L2.Container L3.Settings L3.Fail2ban

/-- Two texts denote the same address. -/
def SameIp (ip ip' : Str) : Prop :=
  ∃ a b, ipAddress (strip ip) = some a ∧ ipAddress (strip ip') = some b ∧ a.Same b

/-- What two calls on these texts should hand over. -/
structure Normal (ip ip' address address' : Str) : Prop where
  plain : Plain address ∧ Plain address'
  fixed : validateIp address = .ok address ∧ validateIp address' = .ok address'
  same : SameIp ip ip' → address = address'

section
variable {a : Address}

theorem noSpace_of_plain {s : Str} (h : Plain s) : NoSpace s := fun c hc => by
  have hr : 32 < c.toNat ∧ c.toNat < 128 := by
    rcases h c hc with h | rfl | rfl
    · simp only [isHexDigit, Char.isDigit, Char.le_def, ge_iff_le, Bool.or_eq_true,
        Bool.and_eq_true, decide_eq_true_eq, UInt32.le_iff_toNat_le] at h
      have e : c.toNat = c.val.toNat := rfl
      rw [e]
      simp at h
      omega
    · decide
    · decide
  exact isSpace_of_range hr.1 hr.2

/-- Without a scope id the text is its own normal form. -/
theorem validateIp_text (h : a.scopeId = none) : validateIp a.text = .ok a.text := by
  unfold validateIp
  rw [(noSpace_of_plain (plain_text.mpr h)).strip_eq, ipAddress_text h]

theorem scopeId_iff {ip : Str} (h : ipAddress (strip ip) = some a) :
    a.scopeId = none ↔ '%' ∉ ip :=
  (scope_iff h).trans (not_congr (mem_strip_iff (by decide)))

end

theorem normal_iff {ip ip' : Str} {a b : Address} (ha : ipAddress (strip ip) = some a)
    (hb : ipAddress (strip ip') = some b) :
    Normal ip ip' a.text b.text ↔ '%' ∉ ip ∧ '%' ∉ ip' := by
  rw [← scopeId_iff ha, ← scopeId_iff hb]
  constructor
  · intro h
    exact ⟨plain_text.mp h.plain.1, plain_text.mp h.plain.2⟩
  · rintro ⟨hna, hnb⟩
    refine ⟨⟨plain_text.mpr hna, plain_text.mpr hnb⟩, ⟨validateIp_text hna, validateIp_text hnb⟩, ?_⟩
    rintro ⟨a', b', ha', hb', hsame⟩
    rw [ha] at ha'
    rw [hb] at hb'
    cases ha'
    cases hb'
    rw [hsame.eq hna hnb]

/-- Two calls that return, each in a world of its own, hand over what they
should exactly when neither text holds a `%`. -/
theorem handed_normal_iff {answer answer' : List (List Str) → List Str → Str}
    {action action' : BanAction} {ip ip' : Str} {w u w' u' : World} {r r' : Fail2banActionResult}
    (h : (setBan action ip).run (daemon answer) w = (.ok r, w'))
    (h' : (setBan action' ip').run (daemon answer') u = (.ok r', u')) :
    ∃ address address', w'.ran = w.ran ++ [banArgs action address] ∧
      u'.ran = u.ran ++ [banArgs action' address'] ∧
      (Normal ip ip' address address' ↔ '%' ∉ ip ∧ '%' ∉ ip') := by
  obtain ⟨a, ha, hran⟩ := run_setBan h
  obtain ⟨b, hb, hran'⟩ := run_setBan h'
  exact ⟨a.text, b.text, hran, hran', normal_iff ha hb⟩

/-! ## Two runs -/

/-- The daemon runs, and nothing was asked of it. -/
def fresh : World where
  files path := if path = dmsSettingsPath then some "ENABLE_FAIL2BAN=1".toList else none
  ran := []

/-- What commands print here. -/
def silent (_ : List (List Str)) (_ : List Str) : Str := []

/-- An IPv4 address is banned, and unbanned as an IPv4-mapped one. -/
theorem handed_mapped : ∃ address address',
    ((banIp " 192.0.2.7".toList).run (daemon silent) fresh).2.ran =
        [] ++ [banArgs .ban address] ∧
      ((unbanIp "::FFFF:192.0.2.7".toList).run (daemon silent) fresh).2.ran =
        [] ++ [banArgs .unban address'] ∧
      (Normal " 192.0.2.7".toList "::FFFF:192.0.2.7".toList address address' ↔
        '%' ∉ " 192.0.2.7".toList ∧ '%' ∉ "::FFFF:192.0.2.7".toList) :=
  have hban : ((banIp " 192.0.2.7".toList).run (daemon silent) fresh).1 = .ok ⟨[]⟩ := by
    decide +kernel
  have hunban : ((unbanIp "::FFFF:192.0.2.7".toList).run (daemon silent) fresh).1 = .ok ⟨[]⟩ := by
    decide +kernel
  handed_normal_iff (Prod.ext hban rfl) (Prod.ext hunban rfl)

/-- A shell command goes through as the scope id of an address. -/
theorem handed_command :
    ((banIp "fe80::1%;reboot".toList).run (daemon silent) fresh).2.ran =
        [banArgs .ban "fe80::1%;reboot".toList] ∧
      ¬ Plain "fe80::1%;reboot".toList := by
  refine ⟨by decide +kernel, fun h => ?_⟩
  exact absurd (h ';' (by decide)) (by decide)

end MailserverUi.L4.BannedAddress
