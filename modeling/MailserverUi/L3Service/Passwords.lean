import MailserverUi.L2Store.Container

/-!
# Dovecot password hashes (`passwords.py`)

`sha512_crypt.hash` salts each hash afresh, so what it returns is given with
the call; `none` where it raises.
-/
namespace MailserverUi.L3.Passwords

open Py L2.Errors L2.Container

/-- mirrors backend/app/services/passwords.py:10-16 -/
def hashScheme : Str := "{SHA512-CRYPT}".toList
def dovecotHash (crypt : Str) : Str := hashScheme ++ crypt

def hashDovecotPassword : Option Str → Io Str
  | some crypt => .pure (dovecotHash crypt)
  | none => .raise .internal

theorem noSpace_hashScheme : NoSpace hashScheme := by decide

/-- `hash_dovecot_password` returns no blank when `sha512_crypt.hash` does
not. -/
theorem noSpace_dovecotHash {c : Str} (h : NoSpace c) : NoSpace (dovecotHash c) := by
  intro d hd
  rcases List.mem_append.mp hd with hd | hd
  · exact noSpace_hashScheme d hd
  · exact h d hd

end MailserverUi.L3.Passwords
