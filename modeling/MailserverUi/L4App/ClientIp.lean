import MailserverUi.Core.Lower
import MailserverUi.L1Encoding.IpAddress

/-!
# Who a request comes from (`client_ip.py`)

`is_secure_request` looks at `X-Forwarded-Proto` only behind
`_peer_is_trusted`. `get_client_ip` walks `X-Forwarded-For` as soon as any
trusted proxy is configured: it asks whether the hops of the chain are trusted
and never whether the peer that sent the header is.

Results:
* `isSecureRequest_untrusted`: the scheme of a request from an untrusted peer
  does not depend on its headers.
* `getClientIp_mem`: the answer is the peer or an entry of the header that no
  trusted network holds.
* `getClientIp_spoofed`: any such entry is the answer when it is sent alone.
* `headersIgnored_iff`: hence an untrusted peer's headers are ignored exactly
  when there is no such entry to send.
* `suffixDecides_iff`: behind a trusted peer, what stands left of the first hop
  that is not trusted does not matter exactly when that hop is a bare address.
-/
namespace MailserverUi.L4.ClientIp

open Py L1.IpAddress

/-- What the application reads of a request. `client` is the host of the
direct peer; `headers` are the raw headers in order, their names in lower case
as ASGI has them. -/
structure Request where
  client : Option Str
  headers : List (Str × Str)
  scheme : Str
  method : Str
  path : Str
  deriving DecidableEq, Repr

/-- `request.headers.get(name, "")`: the first header of that name. -/
def Request.header (r : Request) (name : Str) : Str :=
  ((r.headers.find? fun h => h.1 = name).map Prod.snd).getD []

/-- mirrors backend/app/client_ip.py:15-25 -/
def parseTrustedProxies (raw : Str) : List Network :=
  (((split ',' raw).map strip).filter (· ≠ [])).filterMap ipNetwork

/-- `any(addr in net for net in trusted)`. -/
def inTrusted (trusted : List Network) (addr : Address) : Bool :=
  trusted.any fun net => net.contains addr

/-- mirrors backend/app/client_ip.py:28-37 -/
def peerIsTrusted (r : Request) (trusted : List Network) : Bool :=
  match r.client with
  | none => false
  | some peer =>
    match ipAddress peer with
    | none => false
    | some addr => inTrusted trusted addr

/-- mirrors backend/app/client_ip.py:40-53 -/
def isSecureRequest (trustedProxies : Str) (r : Request) : Bool :=
  let trusted := parseTrustedProxies trustedProxies
  let proto := lower (strip ((split ',' (r.header "x-forwarded-proto".toList)).headD []))
  if trusted ≠ [] && peerIsTrusted r trusted && proto ≠ [] then proto = "https".toList
  else r.scheme = "https".toList

/-- `chain` of `get_client_ip`. -/
def chain (r : Request) : List Str :=
  ((split ',' (r.header "x-forwarded-for".toList)).filter fun ip => strip ip ≠ []).map strip

/-- The entry parses and no trusted network holds it. -/
def untrustedHop (trusted : List Network) (candidate : Str) : Bool :=
  match ipAddress candidate with
  | none => false
  | some addr => !inTrusted trusted addr

/-- mirrors backend/app/client_ip.py:56-79 -/
def getClientIp (trustedProxies : Str) (r : Request) : Option Str :=
  let trusted := parseTrustedProxies trustedProxies
  if trusted = [] then r.client
  else
    match (chain r).reverse.find? (untrustedHop trusted) with
    | some candidate => some candidate
    | none => r.client

/-! ## The two functions on an untrusted peer -/

theorem isSecureRequest_untrusted {raw : Str} {r : Request}
    (h : peerIsTrusted r (parseTrustedProxies raw) = false) :
    isSecureRequest raw r = decide (r.scheme = "https".toList) := by
  simp [isSecureRequest, h]

/-- A text that can stand between two commas of a header as it is. -/
def IsEntry (s : Str) : Prop := ',' ∉ s ∧ strip s = s

theorem isEntry_of_mem_chain {r : Request} {s : Str} (h : s ∈ chain r) : IsEntry s := by
  simp only [chain, List.mem_map, List.mem_filter] at h
  obtain ⟨ip, ⟨hip, -⟩, rfl⟩ := h
  refine ⟨fun hc => ?_, strip_strip ip⟩
  exact (mem_split hip).1 (mem_strip hc)

theorem ne_nil_of_mem_chain {r : Request} {s : Str} (h : s ∈ chain r) : s ≠ [] := by
  simp only [chain, List.mem_map, List.mem_filter, decide_eq_true_eq] at h
  obtain ⟨ip, ⟨-, hne⟩, rfl⟩ := h
  exact hne

/-- The answer is the peer, or an entry outside every trusted network. -/
theorem getClientIp_mem (raw : Str) (r : Request) :
    getClientIp raw r = r.client ∨
      ∃ s, getClientIp raw r = some s ∧ IsEntry s ∧
        untrustedHop (parseTrustedProxies raw) s = true := by
  by_cases hraw : parseTrustedProxies raw = []
  · exact .inl (by rw [getClientIp, if_pos hraw])
  · rw [getClientIp, if_neg hraw]
    cases hf : (chain r).reverse.find? (untrustedHop (parseTrustedProxies raw)) with
    | none => exact .inl rfl
    | some s =>
      have hs := List.mem_reverse.mp (List.mem_of_find?_eq_some hf)
      exact .inr ⟨s, rfl, isEntry_of_mem_chain hs, List.find?_some hf⟩

theorem untrustedHop_ne_nil {trusted : List Network} {s : Str} (h : untrustedHop trusted s = true) :
    s ≠ [] := by
  unfold untrustedHop at h
  split at h
  · cases h
  · rename_i ha; exact ipAddress_ne_nil ha

/-- The headers with one `X-Forwarded-For`. -/
def forwardedFor (s : Str) : List (Str × Str) := [("x-forwarded-for".toList, s)]

/-- Entries are read back from a header that joins them. -/
theorem chain_forwardedFor {l : List Str} (hl : l ≠ []) (h : ∀ s ∈ l, IsEntry s ∧ s ≠ [])
    (r : Request) : chain { r with headers := forwardedFor (join [','] l) } = l := by
  have hh : Request.header { r with headers := forwardedFor (join [','] l) }
      "x-forwarded-for".toList = join [','] l := by
    rw [Request.header, forwardedFor, List.find?_cons_of_pos (by simp)]
    rfl
  have hs : split ',' (join [','] l) = l := split_join hl fun s hs => (h s hs).1.1
  rw [chain, hh, hs, List.filter_eq_self.mpr]
  · calc l.map strip = l.map id := List.map_congr_left fun s hs => (h s hs).1.2
      _ = l := List.map_id l
  · intro s hs
    rw [(h s hs).1.2]
    exact decide_eq_true (h s hs).2

/-- Whoever the peer is, an entry outside every trusted network is believed. -/
theorem getClientIp_spoofed {raw s : Str} (hraw : parseTrustedProxies raw ≠ []) (he : IsEntry s)
    (hs : untrustedHop (parseTrustedProxies raw) s = true) (r : Request) :
    getClientIp raw { r with headers := forwardedFor s } = some s := by
  have hj : join [','] [s] = s := by simp [join]
  have hc : chain { r with headers := forwardedFor (join [','] [s]) } = [s] := by
    refine chain_forwardedFor (List.cons_ne_nil s []) (fun t ht => ?_) r
    rw [List.mem_singleton.mp ht]
    exact ⟨he, untrustedHop_ne_nil hs⟩
  rw [hj] at hc
  rw [getClientIp, if_neg hraw, hc]
  simp [hs]

/-! ## When an untrusted peer's headers are ignored -/

/-- On the request `r` with any two lists of headers, `get_client_ip` answers
the same, the peer, and `is_secure_request` answers the same, by the scheme. -/
def HeadersIgnored (raw : Str) (r : Request) : Prop :=
  ∀ h₁ h₂ : List (Str × Str),
    (getClientIp raw { r with headers := h₁ } = getClientIp raw { r with headers := h₂ } ∧
      getClientIp raw { r with headers := h₁ } = r.client) ∧
    (isSecureRequest raw { r with headers := h₁ } = isSecureRequest raw { r with headers := h₂ } ∧
      isSecureRequest raw { r with headers := h₁ } = decide (r.scheme = "https".toList))

/-- Nothing is configured, or every text that parses as an address and can be
an entry of the header lies in a trusted network, the peer's own text aside. -/
def NothingToForge (raw : Str) (peer : Option Str) : Prop :=
  parseTrustedProxies raw = [] ∨
    ∀ s, IsEntry s → untrustedHop (parseTrustedProxies raw) s = true → peer = some s

/-- `get_client_ip` does not apply the gate that `is_secure_request` has, so an
untrusted peer's headers are ignored exactly when there is nothing to forge. -/
theorem headersIgnored_iff (raw : Str) (r : Request)
    (hp : peerIsTrusted r (parseTrustedProxies raw) = false) :
    HeadersIgnored raw r ↔ NothingToForge raw r.client := by
  constructor
  · intro h
    by_cases hraw : parseTrustedProxies raw = []
    · exact .inl hraw
    · refine .inr fun s he hs => ?_
      have := (h (forwardedFor s) []).1.2
      rw [← this, getClientIp_spoofed hraw he hs]
  · intro h
    have hip : ∀ hs, getClientIp raw { r with headers := hs } = r.client := by
      intro hs
      rcases getClientIp_mem raw { r with headers := hs } with e | ⟨s, e, he, hu⟩
      · exact e
      · rcases h with hraw | h
        · rw [getClientIp, if_pos hraw]
        · rw [e, h s he hu]
    have hsec : ∀ hs, isSecureRequest raw { r with headers := hs } =
        decide (r.scheme = "https".toList) := fun hs =>
      isSecureRequest_untrusted (r := { r with headers := hs }) hp
    exact fun h₁ h₂ => ⟨⟨by rw [hip, hip], hip h₁⟩, by rw [hsec, hsec], hsec h₁⟩

/-- A peer outside the one trusted network. -/
def outsider : Request := ⟨some "203.0.113.9".toList, [], "http".toList, "POST".toList,
  "/api/auth/login".toList⟩

theorem headersIgnored_iff_outsider :
    HeadersIgnored "10.0.0.0/8".toList outsider ↔
      NothingToForge "10.0.0.0/8".toList outsider.client :=
  headersIgnored_iff "10.0.0.0/8".toList outsider (by decide +kernel)

/-- The outsider is not trusted and names itself. -/
theorem outsider_forges :
    peerIsTrusted outsider (parseTrustedProxies "10.0.0.0/8".toList) = false ∧
      getClientIp "10.0.0.0/8".toList { outsider with headers := forwardedFor "1.2.3.4".toList } =
        some "1.2.3.4".toList ∧
      ¬ HeadersIgnored "10.0.0.0/8".toList outsider := by
  have hs : getClientIp "10.0.0.0/8".toList
      { outsider with headers := forwardedFor "1.2.3.4".toList } = some "1.2.3.4".toList := by
    decide +kernel
  refine ⟨by decide +kernel, hs, fun h => ?_⟩
  have := (h (forwardedFor "1.2.3.4".toList) []).1.2
  rw [hs] at this
  exact absurd this (by decide)

/-! ## What stands left of a suffix of the chain -/

/-- The entry parses and a trusted network holds it. -/
def trustedHop (trusted : List Network) (candidate : Str) : Bool :=
  match ipAddress candidate with
  | none => false
  | some addr => inTrusted trusted addr

/-- Behind the peer, every two chains that end in `suffix` get the same answer. -/
def SuffixDecides (raw : Str) (peer : Option Str) (suffix : List Str) : Prop :=
  ∀ r₁ r₂ : Request, r₁.client = peer → r₂.client = peer → suffix <:+ chain r₁ →
    suffix <:+ chain r₂ → getClientIp raw r₁ = getClientIp raw r₂

theorem untrustedHop_of_trustedHop {trusted : List Network} {s : Str}
    (h : trustedHop trusted s = true) : untrustedHop trusted s = false := by
  unfold trustedHop at h
  unfold untrustedHop
  cases ha : ipAddress s with
  | none => rfl
  | some addr =>
    rw [ha] at h
    exact congrArg Bool.not h

/-- A hop that is not trusted is answered, or it is no address. -/
theorem untrustedHop_eq {trusted : List Network} {s : Str} (h : trustedHop trusted s = false) :
    untrustedHop trusted s = (ipAddress s).isSome := by
  unfold trustedHop at h
  unfold untrustedHop
  cases ha : ipAddress s with
  | none => rfl
  | some addr =>
    rw [ha] at h
    exact congrArg Bool.not h

/-- The walk passes over trusted hops, and over a hop that is no address. -/
theorem getClientIp_suffix (front : List Str) {raw : Str} {r : Request}
    (hraw : parseTrustedProxies raw ≠ []) {rest : List Str} {hop : Str}
    (hc : chain r = front ++ hop :: rest)
    (hhop : trustedHop (parseTrustedProxies raw) hop = false)
    (hrest : ∀ s ∈ rest, trustedHop (parseTrustedProxies raw) s = true) :
    getClientIp raw r =
      if (ipAddress hop).isSome then some hop
      else (front.reverse.find? (untrustedHop (parseTrustedProxies raw))).or r.client := by
  have hnone : rest.reverse.find? (untrustedHop (parseTrustedProxies raw)) = none := by
    refine List.find?_eq_none.mpr fun s hs => ?_
    rw [untrustedHop_of_trustedHop (hrest s (List.mem_reverse.mp hs))]
    exact Bool.false_ne_true
  rw [getClientIp, if_neg hraw, hc, List.reverse_append, List.reverse_cons, List.append_assoc,
    List.find?_append, hnone, Option.none_or, List.singleton_append, List.find?_cons,
    untrustedHop_eq hhop]
  cases (ipAddress hop).isSome with
  | true => rfl
  | false =>
    simp only [Bool.false_eq_true, if_false]
    cases front.reverse.find? (untrustedHop (parseTrustedProxies raw)) <;> rfl

theorem peerIsTrusted_iff {r : Request} {peer : Str} (h : r.client = some peer)
    (trusted : List Network) : peerIsTrusted r trusted = trustedHop trusted peer := by
  rw [peerIsTrusted, trustedHop, h]

/-- Behind a trusted peer, the hop that handed the request to the first trusted
proxy decides the answer exactly when its entry is a bare address, or when there
is no address outside the trusted networks. The walk passes over an entry with a
port, or any other text, as if it were trusted. -/
theorem suffixDecides_iff (raw : Str) (r : Request) (front rest : List Str) (hop : Str)
    (hpeer : peerIsTrusted r (parseTrustedProxies raw) = true)
    (hc : chain r = front ++ hop :: rest)
    (hhop : trustedHop (parseTrustedProxies raw) hop = false)
    (hrest : ∀ s ∈ rest, trustedHop (parseTrustedProxies raw) s = true) :
    SuffixDecides raw r.client (hop :: rest) ↔
      (ipAddress hop).isSome ∨
        ∀ s, IsEntry s → untrustedHop (parseTrustedProxies raw) s = false := by
  have hraw : parseTrustedProxies raw ≠ [] := by
    intro e
    rw [e] at hpeer
    unfold peerIsTrusted at hpeer
    split at hpeer
    · cases hpeer
    · split at hpeer
      · cases hpeer
      · exact absurd hpeer (by simp [inTrusted])
  constructor
  · -- an entry outside every network, sent left of the suffix, against no entry
    intro h
    by_contra hn
    rw [not_or, Bool.not_eq_true] at hn
    obtain ⟨hbare, hforge⟩ := hn
    push Not at hforge
    obtain ⟨s, hs, hu⟩ := hforge
    rw [Bool.ne_false_iff] at hu
    have hentry : ∀ t ∈ hop :: rest, IsEntry t ∧ t ≠ [] := fun t ht =>
      have hm : t ∈ chain r := hc ▸ List.mem_append_right front ht
      ⟨isEntry_of_mem_chain hm, ne_nil_of_mem_chain hm⟩
    have hplain := chain_forwardedFor (List.cons_ne_nil hop rest) hentry r
    have hforged := chain_forwardedFor (List.cons_ne_nil s (hop :: rest))
      (List.forall_mem_cons.mpr ⟨⟨hs, untrustedHop_ne_nil hu⟩, hentry⟩) r
    have heq := h { r with headers := forwardedFor (join [','] (hop :: rest)) }
      { r with headers := forwardedFor (join [','] (s :: hop :: rest)) } rfl rfl
      (by rw [hplain]) (by rw [hforged]; exact List.suffix_cons s _)
    rw [getClientIp_suffix [] hraw hplain hhop hrest,
      getClientIp_suffix [s] hraw hforged hhop hrest, hbare] at heq
    simp only [Bool.false_eq_true, if_false, List.reverse_nil, List.find?_nil, Option.none_or,
      List.reverse_singleton, List.find?_singleton, hu, if_true, Option.some_or] at heq
    -- the peer is trusted, and the entry is not
    rw [peerIsTrusted_iff heq] at hpeer
    rw [untrustedHop_of_trustedHop hpeer] at hu
    cases hu
  · intro h r₁ r₂ h₁ h₂ hs₁ hs₂
    obtain ⟨f₁, e₁⟩ := hs₁
    obtain ⟨f₂, e₂⟩ := hs₂
    rw [getClientIp_suffix _ hraw e₁.symm hhop hrest, getClientIp_suffix _ hraw e₂.symm hhop hrest]
    rcases h with hbare | hnone
    · rw [if_pos hbare, if_pos hbare]
    · -- nobody outside: every walk ends at the peer
      have hwalk : ∀ (q : Request) front', chain q = front' ++ hop :: rest →
          front'.reverse.find? (untrustedHop (parseTrustedProxies raw)) = none := by
        intro q front' e
        refine List.find?_eq_none.mpr fun s hs => ?_
        have hm : s ∈ chain q := e ▸ List.mem_append_left _ (List.mem_reverse.mp hs)
        rw [hnone s (isEntry_of_mem_chain hm)]
        exact Bool.false_ne_true
      rw [hwalk r₁ f₁ e₁.symm, hwalk r₂ f₂ e₂.symm, h₁, h₂]

/-- A request over two proxies, from a hop that is named without its port. -/
def proxied (hop : Str) : Request :=
  ⟨some "10.0.0.1".toList, forwardedFor (hop ++ ", 10.0.0.2".toList), "http".toList, "GET".toList,
    "/".toList⟩

theorem suffixDecides_iff_proxied :
    SuffixDecides "10.0.0.0/8".toList (some "10.0.0.1".toList)
        ["203.0.113.9".toList, "10.0.0.2".toList] ↔
      (ipAddress "203.0.113.9".toList).isSome ∨
        ∀ s, IsEntry s → untrustedHop (parseTrustedProxies "10.0.0.0/8".toList) s = false :=
  suffixDecides_iff "10.0.0.0/8".toList (proxied "203.0.113.9".toList) [] ["10.0.0.2".toList]
    "203.0.113.9".toList (by decide +kernel) (by decide +kernel) (by decide +kernel)
    (by decide +kernel)

/-- With its port, the hop is passed over, and names whom it likes. -/
theorem hop_with_port_forges :
    ∃ r₁ r₂ : Request, r₁.client = r₂.client ∧
      peerIsTrusted r₁ (parseTrustedProxies "10.0.0.0/8".toList) = true ∧
      chain r₁ = ["203.0.113.9:443".toList, "10.0.0.2".toList] ∧
      chain r₂ = ["1.2.3.4".toList, "203.0.113.9:443".toList, "10.0.0.2".toList] ∧
      trustedHop (parseTrustedProxies "10.0.0.0/8".toList) "203.0.113.9:443".toList = false ∧
      trustedHop (parseTrustedProxies "10.0.0.0/8".toList) "10.0.0.2".toList = true ∧
      getClientIp "10.0.0.0/8".toList r₁ = some "10.0.0.1".toList ∧
      getClientIp "10.0.0.0/8".toList r₂ = some "1.2.3.4".toList :=
  ⟨proxied "203.0.113.9:443".toList, proxied "1.2.3.4, 203.0.113.9:443".toList,
    by decide +kernel⟩

end MailserverUi.L4.ClientIp
