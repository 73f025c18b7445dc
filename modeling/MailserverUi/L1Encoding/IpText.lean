import Mathlib
import MailserverUi.L1Encoding.IpAddress

/-!
# The text of an IP address (`str(address)`)

An IPv4 address is four decimal octets. An IPv6 address is eight hextets, the
longest run of two or more zeros replaced by `::`; the last 32 bits of an
IPv4-mapped one are written as an IPv4 address. A scope id follows a `%`.

Results:
* `ipAddress_text`: without a scope id, the text is read as the address.
* `plain_text`: without a scope id, the text is of hexadecimal digits, dots and
  colons.
* `scope_iff`: an address that was read has a scope id exactly when its text
  holds a `%`.
-/
namespace MailserverUi.L1.IpAddress

open Py

/-! ## Numbers -/

theorem toDigits_step {base n : Nat} (hb : 1 < base) (h : ¬ n < base) :
    Nat.toDigits base n = Nat.toDigits base (n / base) ++ [(n % base).digitChar] := by
  rw [Nat.toDigits_eq_if hb, if_neg h]

/-- A number is read back from its digits, when each digit is. -/
theorem ofDigits_toDigits {base : Nat} {digit : Char → Nat} (hb : 1 < base)
    (h : ∀ d, d < base → digit d.digitChar = d) (n : Nat) :
    ofDigits base digit (Nat.toDigits base n) = n := by
  induction n using Nat.strongRecOn with
  | ind n ih =>
    by_cases hn : n < base
    · rw [Nat.toDigits_of_lt_base hn]
      simp [ofDigits, h n hn]
    · have hlt : n / base < n := Nat.div_lt_self (by omega) hb
      rw [toDigits_step hb hn, ofDigits, List.foldl_append]
      change ofDigits base digit (Nat.toDigits base (n / base)) * base +
        digit (n % base).digitChar = n
      rw [ih _ hlt, h _ (Nat.mod_lt _ (by omega))]
      exact Nat.div_add_mod' n base

theorem mem_toDigits {base n : Nat} (hb : 1 < base) {c : Char} (h : c ∈ Nat.toDigits base n) :
    ∃ d, d < base ∧ c = d.digitChar := by
  induction n using Nat.strongRecOn with
  | ind n ih =>
    by_cases hn : n < base
    · rw [Nat.toDigits_of_lt_base hn, List.mem_singleton] at h
      exact ⟨n, hn, h⟩
    · rw [toDigits_step hb hn, List.mem_append, List.mem_singleton] at h
      rcases h with h | h
      · exact ih _ (Nat.div_lt_self (by omega) hb) h
      · exact ⟨_, Nat.mod_lt _ (by omega), h⟩

theorem hexDigit_digitChar : ∀ d, d < 16 → hexDigit d.digitChar = d := by decide

theorem isHexDigit_digitChar : ∀ d, d < 16 → isHexDigit d.digitChar = true := by decide

/-- `'%x' % n`. -/
def hex (n : Nat) : Str := Nat.toDigits 16 n

theorem isHexDigit_hex {n : Nat} {c : Char} (h : c ∈ hex n) : isHexDigit c = true := by
  obtain ⟨d, hd, rfl⟩ := mem_toDigits (by decide) h
  exact isHexDigit_digitChar d hd

theorem parseHextet_hex {n : Nat} (h : n < 2 ^ 16) : parseHextet (hex n) = some n := by
  have hlen : (hex n).length ≤ 4 := (Nat.length_toDigits_le_iff (by decide) (by decide)).mpr h
  have hall : (hex n).all isHexDigit = true := List.all_eq_true.mpr fun c hc => isHexDigit_hex hc
  have hne : hex n ≠ [] := Nat.toDigits_ne_nil
  unfold parseHextet
  rw [hall, if_neg (by simp [hne, hlen]), hex, ofDigits_toDigits (by decide) hexDigit_digitChar]

/-! ## IPv4 -/

def octets (n : Nat) : List Nat := [n / 2 ^ 24 % 256, n / 2 ^ 16 % 256, n / 2 ^ 8 % 256, n % 256]

/-- `_BaseV4._string_from_ip_int`. -/
def ipv4Text (n : Nat) : Str := join ['.'] ((octets n).map (Nat.toDigits 10))

theorem parseOctet_toDigits : ∀ n, n < 256 → parseOctet (Nat.toDigits 10 n) = some n := by
  decide +kernel

theorem octets_ofOctets {n : Nat} (h : n < 2 ^ 32) :
    ((n / 2 ^ 24 % 256 * 256 + n / 2 ^ 16 % 256) * 256 + n / 2 ^ 8 % 256) * 256 + n % 256 = n := by
  omega

theorem isDigit_of_mem_decimal {n : Nat} {c : Char} (h : c ∈ Nat.toDigits 10 n) :
    c.isDigit = true := Nat.isDigit_of_mem_toDigits (by decide) le_rfl h

theorem mem_ipv4Text {n : Nat} {c : Char} (h : c ∈ ipv4Text n) : c.isDigit = true ∨ c = '.' := by
  rcases mem_join h with h | ⟨p, hp, h⟩
  · exact .inr (List.mem_singleton.mp h)
  · obtain ⟨m, -, rfl⟩ := List.mem_map.mp hp
    exact .inl (isDigit_of_mem_decimal h)

theorem ipv4Int_text {n : Nat} (h : n < 2 ^ 32) : ipv4Int (ipv4Text n) = some n := by
  have hdot : ∀ p ∈ (octets n).map (Nat.toDigits 10), '.' ∉ p := by
    intro p hp hd
    obtain ⟨m, -, rfl⟩ := List.mem_map.mp hp
    exact absurd (isDigit_of_mem_decimal hd) (by decide)
  have hparse : ((octets n).map (Nat.toDigits 10)).mapM parseOctet = some (octets n) := by
    have hlt (m : Nat) : parseOctet (Nat.toDigits 10 (m % 256)) = some (m % 256) :=
      parseOctet_toDigits _ (Nat.mod_lt _ (by decide))
    simp [octets, hlt]
  rw [ipv4Int, ipv4Text, split_join (by simp [octets]) hdot, hparse]
  exact congrArg some (octets_ofOctets h)

/-! ## IPv6 -/

def hextetsOf (n : Nat) : List Nat :=
  [n / 2 ^ 112 % 2 ^ 16, n / 2 ^ 96 % 2 ^ 16, n / 2 ^ 80 % 2 ^ 16, n / 2 ^ 64 % 2 ^ 16,
    n / 2 ^ 48 % 2 ^ 16, n / 2 ^ 32 % 2 ^ 16, n / 2 ^ 16 % 2 ^ 16, n % 2 ^ 16]

/-- The length of the run of zeros that begins at `i`. -/
def zerosAt (hs : List Str) (i : Nat) : Nat := ((hs.drop i).takeWhile (· = ['0'])).length

def longestZeros (hs : List Str) : Nat := ((List.range hs.length).map (zerosAt hs)).foldr max 0

/-- The first of the longest runs. -/
def longestStart (hs : List Str) : Nat :=
  ((List.range hs.length).find? fun i => zerosAt hs i = longestZeros hs).getD 0

/-- `_BaseV6._compress_hextets`. -/
def compressHextets (hs : List Str) : List Str :=
  let len := longestZeros hs
  let start := longestStart hs
  if len ≤ 1 then hs
  else
    let stop := start + len
    let padded := if stop = hs.length then hs ++ [[]] else hs
    let short := padded.take start ++ [] :: padded.drop stop
    if start = 0 then [] :: short else short

/-- `_BaseV6._string_from_ip_int`. -/
def hextetText (n : Nat) : Str := join [':'] (compressHextets ((hextetsOf n).map hex))

/-- `IPv6Address.__str__` up to the scope id: the last 32 bits of an
IPv4-mapped address are written as an IPv4 address. -/
def ipv6Text (n : Nat) : Str :=
  if n / 2 ^ 32 = 0xFFFF then hextetText (n / 2 ^ 32) ++ ':' :: ipv4Text (n % 2 ^ 32)
  else hextetText n

/-- `str(address)`. -/
def Address.text : Address → Str
  | .v4 ip => ipv4Text ip.toNat
  | .v6 ip scopeId => ipv6Text ip.toNat ++ scopeId.elim [] ('%' :: ·)

/-! ## Runs of zeros -/

/-- The parts of a text with `::` between these hextets. -/
def pieces (pre post : List Str) : List Str :=
  (if pre = [] then [[]] else pre) ++ [] :: (if post = [] then [[]] else post)

section
variable {hs : List Str}

theorem drop_zerosAt (hs : List Str) (i : Nat) :
    hs.drop i = List.replicate (zerosAt hs i) ['0'] ++ hs.drop (i + zerosAt hs i) := by
  have hz : (hs.drop i).takeWhile (· = ['0']) = List.replicate (zerosAt hs i) ['0'] :=
    List.eq_replicate_iff.mpr ⟨rfl, fun x hx => by simpa using List.mem_takeWhile_imp hx⟩
  have hd : (hs.drop i).dropWhile (· = ['0']) = hs.drop (i + zerosAt hs i) := by
    rw [← List.drop_drop]
    conv_rhs => rw [← List.takeWhile_append_dropWhile (p := (· = ['0'])) (l := hs.drop i)]
    exact (List.drop_left).symm
  rw [← hz, ← hd, List.takeWhile_append_dropWhile]

theorem zerosAt_longestStart (h : 0 < longestZeros hs) :
    longestStart hs < hs.length ∧ zerosAt hs (longestStart hs) = longestZeros hs := by
  have hex : ∃ i ∈ List.range hs.length, zerosAt hs i = longestZeros hs := by
    have hmem : longestZeros hs ∈ (List.range hs.length).map (zerosAt hs) := by
      have hfold (l : List Nat) : l.foldr max 0 = 0 ∨ l.foldr max 0 ∈ l := by
        induction l with
        | nil => exact .inl rfl
        | cons n l ih =>
          rw [List.foldr_cons]
          rcases max_choice n (l.foldr max 0) with e | e
          · rw [e]
            exact .inr List.mem_cons_self
          · rw [e]
            exact ih.imp_right (List.mem_cons_of_mem n)
      exact (hfold _).resolve_left (Nat.ne_of_gt h)
    exact List.mem_map.mp hmem
  obtain ⟨i, hi, he⟩ := hex
  unfold longestStart
  cases hf : (List.range hs.length).find? fun i => zerosAt hs i = longestZeros hs with
  | none => exact absurd (decide_eq_true he) (List.find?_eq_none.mp hf i hi)
  | some j =>
    exact ⟨List.mem_range.mp (List.mem_of_find?_eq_some hf), by simpa using List.find?_some hf⟩

/-- A text is left alone, or a run of zeros in it becomes `::`. -/
theorem compressHextets_cases (hs : List Str) :
    compressHextets hs = hs ∨
      ∃ pre post n, 0 < n ∧ hs = pre ++ (List.replicate n ['0'] ++ post) ∧
        compressHextets hs = pieces pre post := by
  unfold compressHextets
  dsimp only
  split
  · exact .inl rfl
  · rename_i hlen
    have hpos : 0 < longestZeros hs := by omega
    obtain ⟨hstart, hz⟩ := zerosAt_longestStart hpos
    have hdrop := drop_zerosAt hs (longestStart hs)
    rw [hz] at hdrop
    generalize longestStart hs = start at *
    generalize longestZeros hs = n at *
    have hstop : start + n ≤ hs.length := by
      have := congrArg List.length hdrop
      rw [List.length_append, List.length_replicate, List.length_drop, List.length_drop] at this
      omega
    refine .inr ⟨hs.take start, hs.drop (start + n), n, hpos, ?_, ?_⟩
    · rw [← hdrop, List.take_append_drop]
    · have hpost : (if start + n = hs.length then hs ++ [[]] else hs).drop (start + n) =
          if hs.drop (start + n) = [] then [[]] else hs.drop (start + n) := by
        by_cases he : start + n = hs.length
        · have hnil : hs.drop (start + n) = [] := List.drop_eq_nil_of_le he.ge
          rw [if_pos he, if_pos hnil, he, List.drop_left]
        · have hnil : hs.drop (start + n) ≠ [] := fun e => by
            have := List.drop_eq_nil_iff.mp e
            omega
          rw [if_neg he, if_neg hnil]
      have hpre : (if start + n = hs.length then hs ++ [[]] else hs).take start = hs.take start := by
        split
        · exact List.take_append_of_le_length hstart.le
        · rfl
      rw [hpost, hpre, pieces]
      by_cases h0 : start = 0
      · subst h0
        rfl
      · have hne : hs.take start ≠ [] := fun e => by
          rcases List.take_eq_nil_iff.mp e with e | e
          · exact h0 e
          · rw [e] at hstart
            exact absurd hstart (Nat.not_lt_zero _)
        rw [if_neg h0, if_neg hne]

end

/-! ## Reading the hextets back -/

/-- Each part of the text is a written hextet. -/
def AreHex (parts : List Str) : Prop := ∀ p ∈ parts, ∃ n, p = hex n

theorem areHex_map (ns : List Nat) : AreHex (ns.map hex) := fun p hp => by
  obtain ⟨n, -, e⟩ := List.mem_map.mp hp
  exact ⟨n, e.symm⟩

theorem AreHex.ne_nil {parts : List Str} (h : AreHex parts) {p : Str} (hp : p ∈ parts) : p ≠ [] := by
  obtain ⟨n, rfl⟩ := h p hp
  exact Nat.toDigits_ne_nil

theorem AreHex.not_mem {parts : List Str} (h : AreHex parts) {c : Char} (hc : isHexDigit c = false)
    {p : Str} (hp : p ∈ parts) : c ∉ p := by
  obtain ⟨n, rfl⟩ := h p hp
  intro hm
  rw [isHexDigit_hex hm] at hc
  cases hc

theorem filter_range_eq {p : Nat → Bool} {n k : Nat} (h : ∀ i, i < n ∧ p i = true ↔ i = k) :
    (List.range n).filter p = [k] := by
  refine List.perm_singleton.mp ((List.perm_ext_iff_of_nodup (List.nodup_range.filter _)
    (List.nodup_singleton k)).mpr fun i => ?_)
  rw [List.mem_filter, List.mem_range, List.mem_singleton]
  exact h i

section
variable {pre post parts : List Str}

theorem expand_eight (h : AreHex parts) (hlen : parts.length = 8) :
    expand parts = some (parts, 0, []) := by
  have hno : (List.range parts.length).filter (fun i =>
      0 < i && i + 1 < parts.length && parts[i]? = some []) = [] := by
    refine List.filter_eq_nil_iff.mpr fun i _ hi => ?_
    simp only [Bool.and_eq_true, decide_eq_true_eq] at hi
    exact h.ne_nil (List.mem_of_getElem? hi.2) rfl
  have hhead : parts.head? ≠ some [] := fun e => h.ne_nil (List.mem_of_mem_head? e) rfl
  have hlast : parts.getLast? ≠ some [] := fun e => h.ne_nil (List.mem_of_mem_getLast? e) rfl
  unfold expand
  rw [hno, if_neg (by omega)]
  simp [hlen, hhead, hlast]

/-- The `::` is the only empty part between two others. -/
theorem skip_eq {a b : List Str} (ha : a ≠ []) (hb : b ≠ [])
    (hleft : ∀ i, 0 < i → a[i]? ≠ some []) (hright : ∀ i, i + 1 < b.length → b[i]? ≠ some []) :
    (List.range (a ++ [] :: b).length).filter (fun i =>
        0 < i && i + 1 < (a ++ [] :: b).length && (a ++ [] :: b)[i]? = some []) = [a.length] := by
  have hapos : 0 < a.length := List.length_pos_iff.mpr ha
  have hbpos : 0 < b.length := List.length_pos_iff.mpr hb
  have hlen : (a ++ [] :: b).length = a.length + b.length + 1 := by
    rw [List.length_append, List.length_cons, Nat.add_assoc]
  refine filter_range_eq fun i => ?_
  simp only [Bool.and_eq_true, decide_eq_true_eq, hlen]
  constructor
  · rintro ⟨hi, ⟨hpos, hlt⟩, hnil⟩
    rcases Nat.lt_trichotomy i a.length with h | h | h
    · rw [List.getElem?_append_left h] at hnil
      exact absurd hnil (hleft i hpos)
    · exact h
    · obtain ⟨j, rfl⟩ : ∃ j, i = a.length + (j + 1) := ⟨i - a.length - 1, by omega⟩
      rw [List.getElem?_append_right (by omega), Nat.add_sub_cancel_left,
        List.getElem?_cons_succ] at hnil
      exact absurd hnil (hright j (by omega))
  · rintro rfl
    rw [List.getElem?_append_right le_rfl, Nat.sub_self]
    exact ⟨by omega, ⟨hapos, by omega⟩, rfl⟩

theorem getElem?_ne_nil (h : AreHex parts) (i : Nat) : parts[i]? ≠ some [] :=
  fun e => h.ne_nil (List.mem_of_getElem? e) rfl

theorem expand_pieces (hpre : AreHex pre) (hpost : AreHex post)
    (hlen : pre.length + post.length < 8) :
    expand (pieces pre post) = some (pre, 8 - (pre.length + post.length), post) := by
  have hskip := skip_eq (a := if pre = [] then [[]] else pre) (b := if post = [] then [[]] else post)
    (by split <;> simp_all) (by split <;> simp_all)
    (fun i hi => by
      split
      · rw [List.getElem?_eq_none hi]
        exact nofun
      · exact getElem?_ne_nil hpre i)
    (fun i hi => by
      split at hi
      · exact absurd hi (by simp)
      · rename_i h
        rw [if_neg h]
        exact getElem?_ne_nil hpost i)
  have hhead : pre.head? ≠ some [] := fun e => hpre.ne_nil (List.mem_of_mem_head? e) rfl
  have hlast : post.getLast? ≠ some [] := fun e => hpost.ne_nil (List.mem_of_mem_getLast? e) rfl
  have hnine : ¬ 9 < (pieces pre post).length := by
    unfold pieces
    by_cases h₁ : pre = [] <;> by_cases h₂ : post = [] <;> simp [h₁, h₂] at hlen ⊢ <;> omega
  have hsplit : pieces pre post =
      (if pre = [] then [[]] else pre) ++ [] :: (if post = [] then [[]] else post) := rfl
  have hdrop {a b : List Str} : (a ++ [] :: b).drop (a.length + 1) = b := by
    rw [← List.drop_drop, List.drop_left, List.drop_one, List.tail_cons]
  unfold expand
  rw [if_neg hnine, hsplit, hskip]
  dsimp only
  rw [List.take_left, hdrop]
  by_cases h₁ : pre = [] <;> by_cases h₂ : post = [] <;>
    simp [h₁, h₂, hhead, hlast] <;> omega

theorem hextets_join (h : ∀ p ∈ parts, ':' ∉ p) (hlen : 3 ≤ parts.length)
    (hdot : '.' ∉ parts.getLastD []) : hextets (join [':'] parts) = some parts := by
  have hne : parts ≠ [] := List.ne_nil_of_length_pos (by omega)
  unfold hextets
  dsimp only
  rw [split_join hne h, if_neg (by omega), if_neg hdot]

theorem mapM_parseHextet {ns : List Nat} (h : ∀ n ∈ ns, n < 2 ^ 16) :
    (ns.map hex).mapM parseHextet = some ns := by
  induction ns with
  | nil => rfl
  | cons n ns ih =>
    obtain ⟨hn, hns⟩ := List.forall_mem_cons.mp h
    rw [List.map_cons, List.mapM_cons, parseHextet_hex hn, ih hns]
    rfl

theorem eq_replicate_zero {ns : List Nat} {k : Nat} (h : ∀ n ∈ ns, n < 2 ^ 16)
    (e : ns.map hex = List.replicate k ['0']) : ns = List.replicate k 0 := by
  have hlen := congrArg List.length e
  rw [List.length_map, List.length_replicate] at hlen
  refine List.eq_replicate_iff.mpr ⟨hlen, fun n hn => ?_⟩
  have hz : hex n = ['0'] := List.eq_of_mem_replicate (e ▸ List.mem_map_of_mem hn)
  have hp := parseHextet_hex (h n hn)
  rw [hz] at hp
  exact (Option.some_inj.mp hp).symm

end

section
variable {n : Nat}

theorem lt_of_mem_hextetsOf {h : Nat} (hm : h ∈ hextetsOf n) : h < 2 ^ 16 := by
  simp only [hextetsOf, List.mem_cons, List.not_mem_nil, or_false] at hm
  rcases hm with rfl | rfl | rfl | rfl | rfl | rfl | rfl | rfl <;>
    exact Nat.mod_lt _ (by decide)

theorem ofHextets_hextetsOf (h : n < 2 ^ 128) : ofHextets (hextetsOf n) = n := by
  simp only [ofHextets, hextetsOf, List.foldl_cons, List.foldl_nil]
  omega

/-- What the parts of a text are read as: hextets with zeros between. -/
theorem read_compress (h : n < 2 ^ 128) :
    ∃ pre post k, expand (compressHextets ((hextetsOf n).map hex)) =
      some (pre.map hex, k, post.map hex) ∧ (∀ x ∈ pre ++ post, x < 2 ^ 16) ∧
      ofHextets (pre ++ List.replicate k 0 ++ post) = n := by
  rcases compressHextets_cases ((hextetsOf n).map hex) with e | ⟨pre, post, k, hk, hs, e⟩
  · refine ⟨hextetsOf n, [], 0, ?_, ?_, ?_⟩
    · rw [e, expand_eight (areHex_map _) (by simp [hextetsOf])]
      rfl
    · rw [List.append_nil]
      exact fun x hx => lt_of_mem_hextetsOf hx
    · rw [List.replicate_zero, List.append_nil, List.append_nil, ofHextets_hextetsOf h]
  · obtain ⟨a, r, hn, rfl, hr⟩ := List.map_eq_append_iff.mp hs
    obtain ⟨z, b, rfl, hz, rfl⟩ := List.map_eq_append_iff.mp hr
    have hlt : ∀ x ∈ a ++ (z ++ b), x < 2 ^ 16 := fun x hx => lt_of_mem_hextetsOf (hn ▸ hx)
    have hlen : a.length + (z.length + b.length) = 8 := by
      rw [← List.length_append, ← List.length_append, ← hn]
      rfl
    obtain rfl := eq_replicate_zero (fun x hx => hlt x (by simp [hx])) hz
    rw [List.length_replicate] at hlen
    refine ⟨a, b, k, ?_, fun x hx => hlt x ?_, ?_⟩
    · rw [e, expand_pieces (areHex_map a) (areHex_map b) (by simp only [List.length_map]; omega)]
      simp only [List.length_map]
      rw [show 8 - (a.length + b.length) = k by omega]
    · rcases List.mem_append.mp hx with hx | hx <;> simp [hx]
    · rw [List.append_assoc, ← hn, ofHextets_hextetsOf h]

theorem mem_compressHextets {hs : List Str} {p : Str} (h : p ∈ compressHextets hs) :
    p = [] ∨ p ∈ hs := by
  rcases compressHextets_cases hs with e | ⟨pre, post, k, -, hs', e⟩
  · rw [e] at h
    exact .inr h
  · rw [e, pieces] at h
    rw [hs']
    by_cases h₁ : pre = [] <;> by_cases h₂ : post = [] <;> simp_all <;> tauto

theorem length_compressHextets (ns : List Nat) (h : 3 ≤ ns.length) :
    3 ≤ (compressHextets (ns.map hex)).length := by
  rcases compressHextets_cases (ns.map hex) with e | ⟨pre, post, k, -, -, e⟩
  · rw [e, List.length_map]
    exact h
  · have hpos {l : List Str} : 0 < (if l = [] then [[]] else l).length := by
      split
      · exact Nat.one_pos
      · exact List.length_pos_iff.mpr ‹_›
    have h₁ := hpos (l := pre)
    have h₂ := hpos (l := post)
    rw [e, pieces, List.length_append, List.length_cons]
    omega

theorem not_mem_compressHextets {ns : List Nat} {c : Char} (hc : isHexDigit c = false) {p : Str}
    (hp : p ∈ compressHextets (ns.map hex)) : c ∉ p := by
  rcases mem_compressHextets hp with rfl | hp
  · exact List.not_mem_nil
  · exact (areHex_map ns).not_mem hc hp

theorem mem_hextetText {c : Char} (h : c ∈ hextetText n) : isHexDigit c = true ∨ c = ':' := by
  rcases mem_join h with h | ⟨p, hp, h⟩
  · exact .inr (List.mem_singleton.mp h)
  · by_contra hno
    rw [not_or, Bool.not_eq_true] at hno
    exact not_mem_compressHextets hno.1 hp h

theorem ipv6Int_hextetText (h : n < 2 ^ 128) : ipv6Int (hextetText n) = some n := by
  obtain ⟨pre, post, k, he, hlt, hn⟩ := read_compress h
  have hdot : '.' ∉ (compressHextets ((hextetsOf n).map hex)).getLastD [] := by
    rw [List.getLastD_eq_getLast?]
    cases hl : (compressHextets ((hextetsOf n).map hex)).getLast? with
    | none => exact List.not_mem_nil
    | some p => exact not_mem_compressHextets (by decide) (List.mem_of_mem_getLast? hl)
  have hread : hextets (hextetText n) = some (compressHextets ((hextetsOf n).map hex)) :=
    hextets_join (fun p hp => not_mem_compressHextets (by decide) hp)
      (length_compressHextets _ (by simp [hextetsOf])) hdot
  have h₁ := mapM_parseHextet fun x hx => hlt x (List.mem_append_left _ hx)
  have h₂ := mapM_parseHextet fun x hx => hlt x (List.mem_append_right _ hx)
  simp only [ipv6Int, hread, Option.bind_eq_bind, Option.bind_some, he, h₁, h₂, Option.pure_def, hn]

/-- The last 32 bits written as an IPv4 address. -/
theorem ipv6Int_mapped {m : Nat} (h : m < 2 ^ 32) :
    ipv6Int ("::ffff:".toList ++ ipv4Text m) = some (0xFFFF * 2 ^ 32 + m) := by
  have hparts : "::ffff:".toList ++ ipv4Text m =
      join [':'] [[], [], "ffff".toList, ipv4Text m] := by simp [join, List.intercalate]
  have hcolon : ':' ∉ ipv4Text m := fun hm => absurd (mem_ipv4Text hm) (by decide)
  have hdot : '.' ∈ ipv4Text m := by
    rw [ipv4Text, octets, List.map_cons, List.map_cons, join_cons _ _ (List.cons_ne_nil _ _)]
    simp
  have hread : hextets ("::ffff:".toList ++ ipv4Text m) =
      some (pieces [] ([0xFFFF, m / 2 ^ 16 % 2 ^ 16, m % 2 ^ 16].map hex)) := by
    unfold hextets
    dsimp only
    rw [hparts, split_join (List.cons_ne_nil _ _) (by simp [hcolon])]
    simp only [List.getLastD_cons, List.getLastD_nil, hdot, ipv4Int_text h]
    rfl
  have hexp := expand_pieces (areHex_map []) (areHex_map [0xFFFF, m / 2 ^ 16 % 2 ^ 16, m % 2 ^ 16])
    (by simp)
  have hlt : ∀ x ∈ [0xFFFF, m / 2 ^ 16 % 2 ^ 16, m % 2 ^ 16], x < 2 ^ 16 := by
    simp only [List.forall_mem_cons]
    exact ⟨by decide, Nat.mod_lt _ (by decide), Nat.mod_lt _ (by decide),
      fun _ hx => absurd hx List.not_mem_nil⟩
  rw [List.map_nil] at hexp
  simp only [ipv6Int, hread, Option.bind_eq_bind, Option.bind_some, hexp, mapM_parseHextet hlt,
    List.mapM_nil, Option.pure_def]
  simp [ofHextets]
  omega

theorem ipv6Int_text (h : n < 2 ^ 128) : ipv6Int (ipv6Text n) = some n := by
  unfold ipv6Text
  split
  · rename_i hm
    have hh : hextetText 0xFFFF = "::ffff".toList := by decide
    rw [hm, hh]
    refine (ipv6Int_mapped (Nat.mod_lt n (by decide))).trans (congrArg some ?_)
    rw [← hm]
    exact Nat.div_add_mod' n _
  · exact ipv6Int_hextetText h

end

/-! ## Addresses -/

/-- The scope id of an IPv6 address. -/
def Address.scopeId : Address → Option Str
  | .v4 _ => none
  | .v6 _ scopeId => scopeId

/-- The same address, whatever its scope id. -/
def Address.Same : Address → Address → Prop
  | .v4 ip, .v4 ip' => ip = ip'
  | .v6 ip _, .v6 ip' _ => ip = ip'
  | _, _ => False

/-- A text of hexadecimal digits, dots and colons. -/
def Plain (s : Str) : Prop := ∀ c ∈ s, isHexDigit c = true ∨ c = '.' ∨ c = ':'

theorem Address.Same.eq {a b : Address} (h : a.Same b) (ha : a.scopeId = none)
    (hb : b.scopeId = none) : a = b := by
  cases a with
  | v4 ip =>
    cases b with
    | v4 ip' => exact congrArg _ h
    | v6 _ _ => exact h.elim
  | v6 ip id =>
    cases b with
    | v4 _ => exact h.elim
    | v6 ip' id' =>
      obtain rfl : id = none := ha
      obtain rfl : id' = none := hb
      obtain rfl : ip = ip' := h
      rfl

theorem plain_ipv4Text (n : Nat) : Plain (ipv4Text n) := fun c hc => by
  refine (mem_ipv4Text hc).imp (fun h => ?_) .inl
  unfold isHexDigit
  rw [h, Bool.true_or, Bool.true_or]

theorem plain_ipv6Text (n : Nat) : Plain (ipv6Text n) := fun c hc => by
  unfold ipv6Text at hc
  split at hc
  · rcases List.mem_append.mp hc with hc | hc
    · exact (mem_hextetText hc).imp_right .inr
    · rcases List.mem_cons.mp hc with rfl | hc
      · exact .inr (.inr rfl)
      · exact plain_ipv4Text _ c hc
  · exact (mem_hextetText hc).imp_right .inr

/-- An address without a scope id is written plainly. -/
theorem plain_text {a : Address} : Plain a.text ↔ a.scopeId = none := by
  cases a with
  | v4 ip => exact iff_of_true (plain_ipv4Text _) rfl
  | v6 ip id =>
    cases id with
    | none => simpa [Address.text, Address.scopeId] using plain_ipv6Text ip.toNat
    | some id =>
      refine iff_of_false (fun h => ?_) (Option.some_ne_none id)
      exact absurd (h '%' (List.mem_append_right _ List.mem_cons_self)) (by decide)

theorem mem_ipv4Int {s : Str} {n : Nat} (h : ipv4Int s = some n) {c : Char} (hc : c ∈ s) :
    c.isDigit = true ∨ c = '.' := by
  unfold ipv4Int at h
  split at h
  · rename_i os e
    rw [← join_split '.' s] at hc
    rcases mem_join hc with hc | ⟨p, hp, hc⟩
    · exact .inr (List.mem_singleton.mp hc)
    · obtain ⟨o, -, ho⟩ := exists_of_mapM e hp
      have hd : isDecimal p = true := by
        by_contra hno
        simp [parseOctet, hno] at ho
      unfold isDecimal at hd
      rw [Bool.and_eq_true] at hd
      exact .inl (List.all_eq_true.mp hd.2 c hc)
  · cases h

theorem colon_of_ipv6Int {s : Str} {n : Nat} (h : ipv6Int s = some n) : ':' ∈ s := by
  by_contra hno
  have hs : split ':' s = [s] := List.splitOn_eq_singleton hno
  have hnone : hextets s = none := by
    unfold hextets
    dsimp only
    rw [hs, if_pos (by simp)]
  simp [ipv6Int, hnone] at h

theorem Plain.not_mem {s : Str} (h : Plain s) {c : Char} (hc : isHexDigit c = false)
    (hdot : c ≠ '.') (hcolon : c ≠ ':') : c ∉ s := fun hm => by
  rcases h c hm with h | h | h
  · rw [h] at hc
    cases hc
  · exact hdot h
  · exact hcolon h

/-- Without a scope id, the text is read as the address. -/
theorem ipAddress_text {a : Address} (h : a.scopeId = none) : ipAddress a.text = some a := by
  have hplain := plain_text.mpr h
  have hslash : '/' ∉ a.text := hplain.not_mem (by decide) (by decide) (by decide)
  cases a with
  | v4 ip =>
    have hv4 : ipv4Address (ipv4Text ip.toNat) = some ip := by
      change '/' ∉ ipv4Text ip.toNat at hslash
      unfold ipv4Address
      rw [if_neg hslash, ipv4Int_text ip.isLt, Option.map_some, BitVec.ofNat_toNat,
        BitVec.setWidth_eq]
    simp only [ipAddress, Address.text, hv4]
  | v6 ip id =>
    obtain rfl : id = none := h
    have htext : (Address.v6 ip none).text = ipv6Text ip.toNat := List.append_nil _
    have hread := ipv6Int_text ip.isLt
    have hscope : splitScopeId (ipv6Text ip.toNat) = some (ipv6Text ip.toNat, none) := by
      unfold splitScopeId
      rw [if_pos ((plain_ipv6Text _).not_mem (by decide) (by decide) (by decide))]
    rw [htext] at hslash ⊢
    have hv4 : ipv4Address (ipv6Text ip.toNat) = none := by
      unfold ipv4Address
      rw [if_neg hslash, Option.map_eq_none_iff]
      cases hp : ipv4Int (ipv6Text ip.toNat) with
      | none => rfl
      | some n => exact absurd (mem_ipv4Int hp (colon_of_ipv6Int hread)) (by decide)
    have hv6 : ipv6Address (ipv6Text ip.toNat) = some (ip, none) := by
      unfold ipv6Address
      rw [if_neg hslash, hscope]
      simp [hread]
    simp only [ipAddress, hv4, hv6, Option.map_some]

/-- A scope id is what follows a `%`. -/
theorem scope_iff {s : Str} {a : Address} (h : ipAddress s = some a) :
    a.scopeId = none ↔ '%' ∉ s := by
  unfold ipAddress at h
  split at h
  · rename_i ip hv4
    cases h
    unfold ipv4Address at hv4
    split at hv4
    · cases hv4
    · obtain ⟨n, hn, -⟩ := Option.map_eq_some_iff.mp hv4
      exact iff_of_true rfl fun hm => absurd (mem_ipv4Int hn hm) (by decide)
  · obtain ⟨⟨ip, id⟩, hp, rfl⟩ := Option.map_eq_some_iff.mp h
    unfold ipv6Address at hp
    split at hp
    · cases hp
    · obtain ⟨⟨addr, id'⟩, hs, hp⟩ := Option.bind_eq_some_iff.mp hp
      obtain ⟨n, -, hp⟩ := Option.bind_eq_some_iff.mp hp
      cases hp
      unfold splitScopeId at hs
      by_cases hm : '%' ∈ s
      · rw [if_neg (not_not_intro hm)] at hs
        split at hs
        · cases hs
        · cases hs
          exact iff_of_false (Option.some_ne_none _) (not_not_intro hm)
      · rw [if_pos hm] at hs
        cases hs
        exact iff_of_true rfl hm

end MailserverUi.L1.IpAddress
