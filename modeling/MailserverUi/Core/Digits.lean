import MailserverUi.Core.Text

/-!
# Digits of Unicode 16.0

`str.isdigit` accepts the decimal digits, which come in runs of ten, and some
more characters that have no place value, such as superscripts. `int` reads
decimal digits of any script, up to 4300 of them, and raises `ValueError` on
the other characters and on longer texts. `signedInt` is what it makes of a text
with a sign and underscores.

* `int_str`: a number of that size is read back from its text.
* `lt_of_int`: what is read is of that size.
* `int_isSome_iff`: which texts are read.
-/
namespace MailserverUi.Py

/-- The zero of each run of ten decimal digits. -/
def zeros : List Nat :=
  [0x30, 0x660, 0x6F0, 0x7C0, 0x966, 0x9E6, 0xA66, 0xAE6, 0xB66, 0xBE6, 0xC66, 0xCE6, 0xD66,
   0xDE6, 0xE50, 0xED0, 0xF20, 0x1040, 0x1090, 0x17E0, 0x1810, 0x1946, 0x19D0, 0x1A80, 0x1A90,
   0x1B50, 0x1BB0, 0x1C40, 0x1C50, 0xA620, 0xA8D0, 0xA900, 0xA9D0, 0xA9F0, 0xAA50, 0xABF0,
   0xFF10, 0x104A0, 0x10D30, 0x10D40, 0x11066, 0x110F0, 0x11136, 0x111D0, 0x112F0, 0x11450,
   0x114D0, 0x11650, 0x116C0, 0x116D0, 0x116DA, 0x11730, 0x118E0, 0x11950, 0x11BF0, 0x11C50,
   0x11D50, 0x11DA0, 0x11F50, 0x16130, 0x16A60, 0x16AC0, 0x16B50, 0x16D70, 0x1CCF0, 0x1D7CE,
   0x1D7D8, 0x1D7E2, 0x1D7EC, 0x1D7F6, 0x1E140, 0x1E2F0, 0x1E4F0, 0x1E5F1, 0x1E950, 0x1FBF0]

/-- The digits without a place value, as closed ranges. -/
def digitRanges : List (Nat × Nat) :=
  [(0xB2, 0xB3), (0xB9, 0xB9), (0x1369, 0x1371), (0x19DA, 0x19DA), (0x2070, 0x2070),
   (0x2074, 0x2079), (0x2080, 0x2089), (0x2460, 0x2468), (0x2474, 0x247C), (0x2488, 0x2490),
   (0x24EA, 0x24EA), (0x24F5, 0x24FD), (0x24FF, 0x24FF), (0x2776, 0x277E), (0x2780, 0x2788),
   (0x278A, 0x2792), (0x10A40, 0x10A43), (0x10E60, 0x10E68), (0x11052, 0x1105A),
   (0x1F100, 0x1F10A)]

def decimalValue (c : Char) : Option Nat :=
  (zeros.find? fun z => z ≤ c.toNat && c.toNat < z + 10).map (c.toNat - ·)

/-- `str.isdigit` on one character. -/
def isDigitChar (c : Char) : Bool :=
  (decimalValue c).isSome || digitRanges.any fun r => r.1 ≤ c.toNat && c.toNat ≤ r.2

/-- `str.isdigit`. -/
def isdigit (s : Str) : Bool := s ≠ [] && s.all isDigitChar

/-- The most digits `int` reads. -/
def maxStrDigits : Nat := 4300

/-- `int(s)` on a text that `isdigit` accepts; `none` is a `ValueError`. -/
def int (s : Str) : Option Nat :=
  if maxStrDigits < s.length then none
  else s.foldlM (fun n c => (decimalValue c).map (10 * n + ·)) 0

/-- Digits, with single underscores between them. -/
def digits (s : Str) : Option Nat :=
  let groups := s.splitOn '_'
  if [] ∈ groups then none else int groups.flatten

/-- `int(s)` on a stripped text; `none` is a `ValueError`. -/
def signedInt : Str → Option Int
  | '-' :: s => (digits s).map fun n => -(n : Int)
  | '+' :: s => (digits s).map Int.ofNat
  | s => (digits s).map Int.ofNat

/-- `str(n)`. -/
def str (n : Nat) : Str := Nat.toDigits 10 n

/-! ## Texts of numbers -/

theorem noSpace_str (n : Nat) : NoSpace (str n) := by
  intro c hc
  have hd : c.isDigit = true := Nat.isDigit_of_mem_toDigits (by decide) le_rfl hc
  have hr : 48 ≤ c.toNat ∧ c.toNat ≤ 57 := by
    simpa [Char.isDigit, UInt32.le_iff_toNat_le] using hd
  exact isSpace_of_range (by omega) (by omega)

theorem not_mem_str {c : Char} (h : c.isDigit = false) (n : Nat) : c ∉ str n := fun hc => by
  rw [Nat.isDigit_of_mem_toDigits (by decide) le_rfl hc] at h
  cases h

/-- One digit more. -/
def intStep (n : Nat) (c : Char) : Option Nat := (decimalValue c).map (10 * n + ·)

theorem decimalValue_of_isDigit {c : Char} (h : c.isDigit = true) :
    decimalValue c = some (c.toNat - '0'.toNat) := by
  have hr : 48 ≤ c.toNat ∧ c.toNat ≤ 57 := by
    simpa [Char.isDigit, UInt32.le_iff_toNat_le] using h
  have hz : zeros = 0x30 :: zeros.tail := rfl
  rw [decimalValue, hz, List.find?_cons_of_pos (by simp; omega)]
  rfl

theorem decimalValue_lt {c : Char} {d : Nat} (h : decimalValue c = some d) : d < 10 := by
  obtain ⟨z, hz, rfl⟩ := Option.map_eq_some_iff.mp h
  have := List.find?_some hz
  simp only [Bool.and_eq_true, decide_eq_true_eq] at this
  omega

theorem foldlM_intStep {s : Str} (h : ∀ c ∈ s, c.isDigit = true) (n : Nat) :
    s.foldlM intStep n = some (Nat.ofDigitChars 10 s n) := by
  induction s generalizing n with
  | nil => rfl
  | cons c s ih =>
    obtain ⟨hc, hs⟩ := List.forall_mem_cons.mp h
    rw [List.foldlM_cons, intStep, decimalValue_of_isDigit hc, Nat.ofDigitChars_cons]
    exact ih hs _

theorem lt_of_foldlM_intStep {s : Str} {n m : Nat} (h : s.foldlM intStep n = some m) :
    m < (n + 1) * 10 ^ s.length := by
  induction s generalizing n with
  | nil =>
    cases h
    simp
  | cons c s ih =>
    rw [List.foldlM_cons, intStep, Option.bind_eq_bind, Option.bind_eq_some_iff] at h
    obtain ⟨k, hk, h⟩ := h
    obtain ⟨d, hd, rfl⟩ := Option.map_eq_some_iff.mp hk
    have hlt := decimalValue_lt hd
    calc m < (10 * n + d + 1) * 10 ^ s.length := ih h
      _ ≤ ((n + 1) * 10) * 10 ^ s.length := Nat.mul_le_mul_right _ (by omega)
      _ = (n + 1) * 10 ^ (c :: s).length := by rw [Nat.mul_assoc, List.length_cons, Nat.pow_succ']

theorem lt_of_int {s : Str} {n : Nat} (h : int s = some n) : n < 10 ^ maxStrDigits := by
  unfold int at h
  split at h
  · cases h
  · rename_i hlen
    have hn := lt_of_foldlM_intStep h
    rw [Nat.zero_add, Nat.one_mul] at hn
    exact hn.trans_le (Nat.pow_le_pow_right (by decide) (not_lt.mp hlen))

theorem foldlM_intStep_isSome {s : Str} (n : Nat) :
    (s.foldlM intStep n).isSome = true ↔ ∀ c ∈ s, (decimalValue c).isSome = true := by
  induction s generalizing n with
  | nil => exact iff_of_true rfl fun c hc => absurd hc List.not_mem_nil
  | cons c s ih =>
    rw [List.foldlM_cons, List.forall_mem_cons, intStep]
    cases hc : decimalValue c with
    | none => exact iff_of_false Bool.false_ne_true fun h => Bool.false_ne_true h.1
    | some d => exact (ih (10 * n + d)).trans ⟨fun h => ⟨rfl, h⟩, fun h => h.2⟩

/-- What `int` reads of the texts that `isdigit` accepts. -/
theorem int_isSome_iff {s : Str} : (int s).isSome = true ↔
    s.length ≤ maxStrDigits ∧ ∀ c ∈ s, (decimalValue c).isSome = true := by
  unfold int
  split
  · rename_i hlen
    exact iff_of_false Bool.false_ne_true fun h => absurd h.1 (not_le.mpr hlen)
  · rename_i hlen
    exact (foldlM_intStep_isSome 0).trans ⟨fun h => ⟨not_lt.mp hlen, h⟩, fun h => h.2⟩

theorem isdigit_str (n : Nat) : isdigit (str n) = true := by
  have hd : (str n).all isDigitChar = true := List.all_eq_true.mpr fun c hc => by
    rw [isDigitChar, decimalValue_of_isDigit (Nat.isDigit_of_mem_toDigits (by decide) le_rfl hc)]
    rfl
  rw [isdigit, hd, Bool.and_true]
  exact decide_eq_true Nat.toDigits_ne_nil

theorem int_str {n : Nat} (h : n < 10 ^ maxStrDigits) : int (str n) = some n := by
  have hlen : ¬ maxStrDigits < (str n).length :=
    not_lt.mpr ((Nat.length_toDigits_le_iff (by decide) (by decide)).mpr h)
  have hd : ∀ c ∈ str n, c.isDigit = true := fun c hc =>
    Nat.isDigit_of_mem_toDigits (by decide) le_rfl hc
  rw [int, if_neg hlen]
  exact (foldlM_intStep hd 0).trans (congrArg some Nat.ofDigitChars_ten_toDigits)

end MailserverUi.Py
