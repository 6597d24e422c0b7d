import IdenGrid.Control.Registry
import IdenGrid.Lib.Urls

/-! # Edge endpoints

The control plane takes an endpoint by what `urlsplit` finds in it (`splitUrl`), the agent by what the
reader of the URL Standard does (`Crate`), and makes the URL of the tunnel from it. The reader of hosts
is a parameter; `Standard` is what the standard says of it. -/

namespace IdenGrid.Agent.Endpoint

open IdenGrid.Lib.Unicode IdenGrid.Lib.Json IdenGrid.Lib.JsonDumps IdenGrid.Lib.Urls
open IdenGrid.Control.Registry (SplitUrl Primitives validateEdgeNodeNetwork)

def string (t : List ℕ) : String := String.ofList (t.map Char.ofNat)

/-- `urlsplit` with the attributes of its result. -/
def splitUrl (T : Tables) (url : String) : Option SplitUrl :=
  (urlsplit T (text url)).map fun p =>
    let host := (hostInfo p.2).1
    let user := (p.2.rdropWhile (· != 64)).dropLast
    { scheme := string p.1
      hostname := if host = [] then none
        else some (string (T.lower (host.takeWhile (· != 37)) ++ host.dropWhile (· != 37)))
      username := if 64 ∈ p.2 then some (string (user.takeWhile (· != 58))) else none
      password := if 64 ∈ p.2 ∧ 58 ∈ user then some (string (user.dropWhile (· != 58)).tail)
        else none }

/-- The `url` crate: its reader, and the texts and kinds of hosts. -/
structure Crate (Host : Type) extends Parts Host where
  parse : List ℕ → Option (Url Host)
  hostStr : Host → List ℕ
  isIpv6 : Host → Prop

/-- **The URL Standard**: how a URL with the scheme `https` is read, what stands in brackets is an IPv6
address, and what does not is a domain or an IPv4 address without blanks and backslashes. -/
structure Standard {Host : Type} (C : Crate Host) : Prop where
  parse : ∀ t, schemeOf (strip t) = text "https" → C.parse t = parseHttps C.toParts (strip t)
  bracketed : ∀ h x, C.host (91 :: h) = some x → C.isIpv6 x ∧
    ∃ b, h = b ++ [93] ∧ ∀ c ∈ b, (hexVal c).isSome = true ∨ c = 58 ∨ c = 46
  bare : ∀ h x, C.host h = some x → h.head? ≠ some 91 →
    ¬ C.isIpv6 x ∧ ∀ c ∈ h, 32 < c ∧ c ≠ 92

variable {Host : Type}

def loopback : List (List ℕ) := [text "127.0.0.1", text "localhost", text "::1"]

/-- `edge_tunnel_url` -/
def edgeTunnelUrl (C : Crate Host) (endpoint : List ℕ) : Option (Url Host) :=
  (C.parse endpoint).bind fun url =>
    if url.username ≠ [] ∨ url.password.isSome ∨ url.host.isNone ∨ url.query.isSome ∨
        url.fragment.isSome then none
    else if url.scheme = text "https" then
      some { url with scheme := text "wss", path := text "/v1/tunnel", query := none, fragment := none }
    else if url.scheme = text "http" ∧ (url.host.map C.hostStr).any (· ∈ loopback) then
      some { url with scheme := text "ws", path := text "/v1/tunnel", query := none, fragment := none }
    else none

/-- The control plane takes the endpoint. -/
def Accepted (T : Tables) (P : Primitives) (endpoint : String) (ip : Option String) : Prop :=
  validateEdgeNodeNetwork { P with urlsplit := splitUrl T } (some endpoint) ip = .ok ()

/-- **The agent takes the endpoint**: it makes a URL of it for the tunnel with the host and the port
that `urlsplit` finds. -/
def Served (T : Tables) (C : Crate Host) (endpoint : String) : Prop :=
  ∃ url s n, edgeTunnelUrl C (text endpoint) = some url ∧ urlsplit T (text endpoint) = some (s, n) ∧
    url.scheme = text "wss" ∧ url.path = text "/v1/tunnel" ∧ url.host = C.host (hostText n) ∧
    portOf (hostInfo n).2 = some (url.port.getD 443)

/-- **The endpoint has neither a query nor a fragment**, and its authority is the host, which the crate
takes, and the port, which is one. -/
def Plain (T : Tables) (C : Crate Host) (endpoint : String) : Prop :=
  63 ∉ text endpoint ∧ 35 ∉ text endpoint ∧ ∃ s n p, urlsplit T (text endpoint) = some (s, n) ∧
    (authority (strip (text endpoint))).1 = withPort (hostText n) p ∧
    (C.host (hostText n)).isSome = true ∧ (portOf (p.getD [])).isSome = true ∧
    portOf (p.getD []) = portOf (hostInfo n).2

/-! ## What the control plane takes -/

theorem string_https {s : List ℕ} (hs : ∀ c ∈ s, c < 0x80) (h : string s = "https") :
    s = text "https" := by
  have hchars : s.map Char.ofNat = "https".toList := by
    rw [← h, string, String.toList_ofList]
  have hascii : ∀ c < 0x80, (Char.ofNat c).toNat = c := by decide
  have hnat : ∀ c ∈ s, (Char.ofNat c).toNat = c := fun c hc => hascii c (hs c hc)
  calc s = (s.map Char.ofNat).map Char.toNat := by
        rw [List.map_map]
        exact ((List.map_congr_left hnat).trans (List.map_id s)).symm
    _ = text "https" := by rw [hchars]; rfl

theorem ascii_schemeOf (t : List ℕ) : ∀ c ∈ schemeOf t, c < 0x80 := by
  intro c hc
  unfold schemeOf at hc
  dsimp only at hc
  split_ifs at hc with h
  · obtain ⟨d, hd, rfl⟩ := List.mem_map.mp hc
    have hd := List.all_eq_true.mp h.2.2 d hd
    simp only [isSchemeChar, isAlpha, isDigit, Bool.or_eq_true, decide_eq_true_eq, beq_iff_eq] at hd
    unfold lower
    split_ifs <;> omega
  · simp at hc

/-- **What an accepted endpoint is for `urlsplit`.** -/
theorem accepted_split {T : Tables} {P : Primitives} {endpoint : String} {ip : Option String}
    (h : Accepted T P endpoint ip) : ∃ n, urlsplit T (text endpoint) = some (text "https", n) ∧
      n = netloc (afterScheme (clean (text endpoint))) ∧
      schemeOf (clean (text endpoint)) = text "https" ∧ (hostInfo n).1 ≠ [] ∧ 64 ∉ n := by
  unfold Accepted validateEdgeNodeNetwork at h
  rcases hsplit : urlsplit T (text endpoint) with _ | ⟨s, n⟩
  · simp [splitUrl, hsplit] at h
  obtain ⟨parsed, hparsed⟩ : ∃ q, splitUrl T endpoint = some q := by
    rw [splitUrl, hsplit]
    exact ⟨_, rfl⟩
  rw [Option.map_some] at h
  dsimp only at h
  rw [hparsed] at h
  dsimp only at h
  split at h
  · simp at h
  next hbad =>
  simp only [not_or, not_not] at hbad
  obtain ⟨hs, hhost, huser, -⟩ := hbad
  rw [splitUrl, hsplit, Option.map_some] at hparsed
  obtain rfl := Option.some.inj hparsed
  dsimp only at hs hhost huser
  have hparts : schemeOf (clean (text endpoint)) = s ∧
      netloc (afterScheme (clean (text endpoint))) = n := by
    unfold urlsplit at hsplit
    dsimp only at hsplit
    split_ifs at hsplit
    exact Prod.mk.inj (Option.some.inj hsplit)
  obtain ⟨rfl, rfl⟩ := hparts
  have hscheme := string_https (ascii_schemeOf _) hs
  refine ⟨_, by rw [← hscheme], rfl, hscheme, fun hnil => ?_, fun hat => ?_⟩
  · simp [hnil] at hhost
  · simp [hat] at huser

/-! ## Ports -/

theorem digits_of_portOf {p : List ℕ} (h : (portOf p).isSome = true) : ∀ c ∈ p, isDigit c = true := by
  unfold portOf at h
  split_ifs at h with hnil hdigits
  · rw [hnil]
    simp
  · exact fun c hc => List.all_eq_true.mp hdigits.1 c hc
  · simp at h

/-- The default port is not kept. -/
theorem getD_default (port : ℕ) : (if port = 443 then none else some port).getD 443 = port := by
  split_ifs with h
  · exact h.symm
  · rfl

/-! ## The two readers -/

section

variable {T : Tables} {C : Crate Host} {e : String} {n : List ℕ}

/-- How the agent reads an endpoint that `urlsplit` finds the scheme `https` in. -/
theorem parse_eq (hC : Standard C) (hs : schemeOf (clean (text e)) = text "https")
    (hn : n = netloc (afterScheme (clean (text e)))) (hne : n ≠ []) :
    ∃ m w, C.parse (text e) = parseHttps C.toParts (strip (text e)) ∧
      afterScheme (strip (text e)) = 47 :: 47 :: m ∧ (∀ c ∈ w, c ≤ 32) ∧
      n = (m ++ w).takeWhile (!isStop ·) ∧ ∀ c, c = 63 ∨ c = 35 → (c ∈ text e ↔ c ∈ m) := by
  have hsome : schemeOf (clean (text e)) ≠ [] := by rw [hs]; decide
  obtain ⟨m, w, hscheme, hafter, hw, htake, hmem⟩ := strip_of_netloc hsome hn.symm hne
  exact ⟨m, w, hC.parse _ (hscheme.trans hs), hafter, hw, htake, hmem⟩

theorem hostText_bare (h91 : 91 ∉ n) (h64 : 64 ∉ n) :
    hostText n = n.takeWhile (· != 58) ∧ (hostInfo n).2 = (n.dropWhile (· != 58)).tail := by
  simp only [hostText, hostInfo, afterAt_of_not_mem h64, if_neg h91, and_self]

theorem hostText_bracketed (h91 : 91 ∈ n) (h64 : 64 ∉ n) : hostText n = 91 :: (between n ++ [93]) := by
  simp only [hostText, hostInfo, afterAt_of_not_mem h64, if_pos h91]

/-- An authority without brackets is its host and its port. -/
theorem withPort_bare (h91 : 91 ∉ n) (h64 : 64 ∉ n) :
    ∃ p, n = withPort (hostText n) p ∧ p.getD [] = (hostInfo n).2 := by
  obtain ⟨hhost, hport⟩ := hostText_bare h91 h64
  rw [hhost, hport]
  have hsplit : n = n.takeWhile (· != 58) ++ n.dropWhile (· != 58) := by simp
  have hhead := head_dropWhile (p := (· != 58)) n
  rcases hdrop : n.dropWhile (· != 58) with _ | ⟨c, r⟩
  · rw [hdrop] at hsplit
    exact ⟨none, hsplit, rfl⟩
  · rw [hdrop] at hsplit hhead
    obtain rfl : c = 58 := by simpa using hhead c rfl
    exact ⟨some r, hsplit, rfl⟩

/-- **An authority that serves**: the host of the standard is that of `urlsplit`. -/
theorem authority_of_served (hC : Standard C) {m w : List ℕ}
    (hafter : afterScheme (strip (text e)) = 47 :: 47 :: m) (hw : ∀ c ∈ w, c ≤ 32)
    (hn : n = (m ++ w).takeWhile (!isStop ·)) (hne : n ≠ []) (h64 : 64 ∉ n) {h : List ℕ}
    {p : Option (List ℕ)} {x : Host}
    (hsplit : splitHost false (afterAt (authority (strip (text e))).1) = (h, p))
    (hx : C.host h = some x) (hhost : C.host (hostText n) = some x)
    (hport : (portOf (hostInfo n).2).isSome = true) :
    (authority (strip (text e))).1 = withPort (hostText n) p := by
  by_cases h91 : 91 ∈ n
  · rw [hostText_bracketed h91 h64] at hhost ⊢
    obtain ⟨hsix, -⟩ := hC.bracketed _ _ hhost
    have hhead : h.head? = some 91 := by
      by_contra hno
      exact (hC.bare h x hx hno).1 hsix
    obtain ⟨t, rfl⟩ : ∃ t, h = 91 :: t := by
      rcases h with _ | ⟨c, t⟩
      · simp at hhead
      · exact ⟨t, by rw [Option.some.inj hhead]⟩
    obtain ⟨-, b, rfl, hb⟩ := hC.bracketed t x hx
    have hclose : 93 ∉ b := fun h93 => by
      have := hb 93 h93
      simp [hexVal] at this
    obtain ⟨y, r, hwithin, hy⟩ := authority_within hafter hn h91
    have hat : 64 ∉ (authority (strip (text e))).1 := fun h => h64 (by rw [hwithin]; simp [h])
    rw [afterAt_of_not_mem hat] at hsplit
    have hfull := splitHost_append hsplit
    rw [hfull] at hwithin
    rw [between_of_within hwithin hy hclose]
    exact hfull
  · obtain ⟨q, hq, hgetD⟩ := withPort_bare h91 h64
    have hno : (hostText n).head? ≠ some 91 := fun hhead => by
      rw [(hostText_bare h91 h64).1] at hhead
      exact h91 ((List.takeWhile_sublist _).subset (List.mem_of_head? hhead))
    obtain ⟨-, hchars⟩ := hC.bare _ _ hhost hno
    have hdigits := digits_of_portOf hport
    have hplain : ∀ c ∈ n, 32 < c ∧ c ≠ 92 := by
      intro c hc
      rw [hq, withPort, List.mem_append] at hc
      rcases hc with hc | hc
      · exact hchars c hc
      · rcases q with _ | q
        · simp at hc
        · rcases List.mem_cons.mp hc with rfl | hc
          · decide
          · have := isDigit_iff.mp (hdigits c (by rw [← hgetD]; exact hc))
            omega
    have hauth := authority_bare hafter hw hn hne hplain
    have hbare : ∀ c ∈ hostText n, c ≠ 58 ∧ c ≠ 91 := by
      rw [(hostText_bare h91 h64).1]
      intro c hc
      refine ⟨by simpa using List.mem_takeWhile_imp (p := (· != 58)) hc, ?_⟩
      rintro rfl
      exact h91 ((List.takeWhile_sublist _).subset hc)
    rw [hauth, afterAt_of_not_mem h64, hq, splitHost_bare hbare] at hsplit
    obtain ⟨-, rfl⟩ := Prod.mk.inj hsplit
    rw [hauth]
    exact hq

/-- The text of an authority that is a host with a port is split there again. -/
theorem splitHost_hostText (h64 : 64 ∉ n) (p : Option (List ℕ)) :
    splitHost false (withPort (hostText n) p) = (hostText n, p) := by
  by_cases h91 : 91 ∈ n
  · rw [hostText_bracketed h91 h64]
    exact splitHost_bracketed (fun h => by simpa using List.mem_takeWhile_imp (p := (· != 93)) h) p
  · rw [(hostText_bare h91 h64).1]
    refine splitHost_bare (fun c hc => ?_) p
    refine ⟨by simpa using List.mem_takeWhile_imp (p := (· != 58)) hc, ?_⟩
    rintro rfl
    exact h91 ((List.takeWhile_sublist _).subset hc)

theorem at_not_mem_hostText (h64 : 64 ∉ n) : 64 ∉ hostText n := by
  by_cases h91 : 91 ∈ n
  · rw [hostText_bracketed h91 h64]
    simp only [List.mem_cons, List.mem_append, List.not_mem_nil, or_false, not_or]
    refine ⟨by decide, fun h => h64 ?_, by decide⟩
    exact (List.dropWhile_sublist _).subset (List.mem_of_mem_tail ((List.takeWhile_sublist _).subset h))
  · rw [(hostText_bare h91 h64).1]
    exact fun h => h64 ((List.takeWhile_sublist _).subset h)

end

/-- The URL of the tunnel. -/
def tunnelUrl (C : Crate Host) (t : List ℕ) (x : Host) (port : ℕ) : Url Host :=
  { urlOf C.toParts t x port with
    scheme := text "wss", path := text "/v1/tunnel", query := none, fragment := none }

theorem of_edgeTunnelUrl {C : Crate Host} {e t : List ℕ} {url : Url Host}
    (hparse : C.parse e = parseHttps C.toParts t) (h : edgeTunnelUrl C e = some url) :
    ∃ g p x port, splitHost false (afterAt (authority t).1) = (g, p) ∧ C.host g = some x ∧
      portOf (p.getD []) = some port ∧ 63 ∉ (authority t).2 ∧ 35 ∉ (authority t).2 ∧
      url = tunnelUrl C t x port := by
  unfold edgeTunnelUrl at h
  rw [hparse] at h
  obtain ⟨u, hu, h⟩ := Option.bind_eq_some_iff.mp h
  obtain ⟨g, p, x, port, hsplit, -, hx, hport, rfl⟩ := parseHttps_eq_some.mp hu
  split at h
  · simp at h
  next hgood =>
  simp only [not_or, Bool.not_eq_true, Option.isSome_eq_false_iff, Option.isNone_iff_eq_none]
    at hgood
  obtain ⟨hquery, hfragment⟩ := urlOf_bare.mp ⟨hgood.2.2.2.1, hgood.2.2.2.2⟩
  rw [if_pos (by rfl)] at h
  exact ⟨g, p, x, port, hsplit, hx, hport, hquery, hfragment, (Option.some.inj h).symm⟩

theorem edgeTunnelUrl_of {C : Crate Host} {e t g : List ℕ} {p : Option (List ℕ)} {x : Host} {port : ℕ}
    (hparse : C.parse e = parseHttps C.toParts t) (hat : 64 ∉ (authority t).1)
    (hsplit : splitHost false (afterAt (authority t).1) = (g, p)) (hne : g ≠ [])
    (hx : C.host g = some x) (hport : portOf (p.getD []) = some port) (hquery : 63 ∉ (authority t).2)
    (hfragment : 35 ∉ (authority t).2) : edgeTunnelUrl C e = some (tunnelUrl C t x port) := by
  have huser : (urlOf C.toParts t x port).username = [] ∧
      (urlOf C.toParts t x port).password = none := by simp [urlOf, hat]
  obtain ⟨hq, hf⟩ : (urlOf C.toParts t x port).query = none ∧
      (urlOf C.toParts t x port).fragment = none := urlOf_bare.mpr ⟨hquery, hfragment⟩
  unfold edgeTunnelUrl
  rw [hparse, Option.bind_eq_some_iff]
  refine ⟨urlOf C.toParts t x port,
    parseHttps_eq_some.mpr ⟨g, p, x, port, hsplit, hne, hx, hport, rfl⟩, ?_⟩
  rw [if_neg, if_pos (by rfl)]
  · rfl
  · rw [huser.1, huser.2, hq, hf]
    simp [urlOf]

/-- **The grammars of the endpoints**: an endpoint that the control plane takes serves the agent exactly
if it is plain. -/
theorem served_iff {T : Tables} {P : Primitives} {C : Crate Host} (hC : Standard C) {endpoint : String}
    {ip : Option String} (h : Accepted T P endpoint ip) : Served T C endpoint ↔ Plain T C endpoint := by
  obtain ⟨n, hsplit, hn, hscheme, hhostne, h64⟩ := accepted_split h
  have hne : n ≠ [] := by
    rintro rfl
    exact hhostne rfl
  obtain ⟨m, w, hparse, hafter, hw, htake, hmem⟩ := parse_eq hC hscheme hn hne
  have hquery : 63 ∈ text endpoint ↔ 63 ∈ (authority (strip (text endpoint))).2 :=
    (hmem 63 (.inl rfl)).trans (mem_iff_tail hafter (.inl rfl))
  have hfragment : 35 ∈ text endpoint ↔ 35 ∈ (authority (strip (text endpoint))).2 :=
    (hmem 35 (.inr rfl)).trans (mem_iff_tail hafter (.inr rfl))
  unfold Plain
  rw [hquery, hfragment]
  constructor
  · rintro ⟨url, s, n', hurl, hsplit', -, -, hhost, hport⟩
    obtain ⟨rfl, rfl⟩ := Prod.mk.inj (Option.some.inj (hsplit.symm.trans hsplit'))
    obtain ⟨g, p, x, port, hg, hx, hp, hq, hf, rfl⟩ := of_edgeTunnelUrl hparse hurl
    have hhost : C.host (hostText n) = some x := hhost.symm
    have hvalue : portOf (hostInfo n).2 = some port := by
      rw [hport]
      exact congrArg some (getD_default port)
    have hauth := authority_of_served hC hafter hw htake hne h64 hg hx hhost (by rw [hvalue]; rfl)
    exact ⟨hq, hf, _, n, p, hsplit, hauth, by rw [hhost]; rfl, by rw [hp]; rfl, by rw [hp, hvalue]⟩
  · rintro ⟨hq, hf, s, n', p, hsplit', hauth, hhost, hp, hvalue⟩
    obtain ⟨rfl, rfl⟩ := Prod.mk.inj (Option.some.inj (hsplit.symm.trans hsplit'))
    obtain ⟨x, hx⟩ := Option.isSome_iff_exists.mp hhost
    obtain ⟨port, hport⟩ := Option.isSome_iff_exists.mp hp
    have hat : 64 ∉ (authority (strip (text endpoint))).1 := by
      rw [hauth, withPort, List.mem_append, not_or]
      refine ⟨at_not_mem_hostText h64, fun hmem => ?_⟩
      rcases p with _ | q
      · simp at hmem
      · rcases List.mem_cons.mp hmem with hcolon | hmem
        · simp at hcolon
        · exact absurd (digits_of_portOf hp 64 hmem) (by decide)
    have hg : splitHost false (afterAt (authority (strip (text endpoint))).1) = (hostText n, p) := by
      rw [afterAt_of_not_mem hat, hauth]
      exact splitHost_hostText h64 p
    have htext : hostText n ≠ [] := by
      unfold hostText
      split_ifs
      · simp
      · exact hhostne
    refine ⟨tunnelUrl C (strip (text endpoint)) x port, _, n,
      edgeTunnelUrl_of hparse hat hg htext hx hport hq hf, hsplit, rfl, rfl, hx.symm, ?_⟩
    rw [← hvalue, hport]
    exact congrArg some (getD_default port).symm

/-! ## A base path and a query -/

/-- Lower-case names only, which are written as they stand. -/
def sampleCrate : Crate (List ℕ) where
  host h := if h ≠ [] ∧ h.all (fun c => decide (97 ≤ c ∧ c ≤ 122) || isDigit c || c == 45 || c == 46)
    then some h else none
  userinfo _ := ([], none)
  path p := if p = [] then [47] else p
  query q := q
  fragment f := f
  parse t := parseHttps
    ⟨fun h => if h ≠ [] ∧
        h.all (fun c => decide (97 ≤ c ∧ c ≤ 122) || isDigit c || c == 45 || c == 46)
      then some h else none, fun _ => ([], none), fun p => if p = [] then [47] else p, id, id⟩ (strip t)
  hostStr h := h
  isIpv6 _ := False

def sampleTables : Tables where
  bracketed _ := false
  normal _ := true
  lower t := t.map lower

def samplePrimitives : Primitives where
  enrollmentHash s := s
  keyedDigest s := s
  loadPublicKey _ := .refused
  decodes _ := false
  verify _ _ _ := false
  urlsplit _ := none

theorem standard_sampleCrate : Standard sampleCrate := by
  have hchars : ∀ h x, sampleCrate.host h = some x →
      ∀ c ∈ h, 97 ≤ c ∧ c ≤ 122 ∨ 48 ≤ c ∧ c ≤ 57 ∨ c = 45 ∨ c = 46 := by
    intro h x hx c hc
    unfold sampleCrate at hx
    dsimp only at hx
    split_ifs at hx with hall
    have := List.all_eq_true.mp hall.2 c hc
    simp only [isDigit, Bool.or_eq_true, decide_eq_true_eq, beq_iff_eq] at this
    omega
  refine ⟨fun t _ => rfl, fun h x hx => ?_, fun h x hx _ => ⟨id, fun c hc => ?_⟩⟩
  · have := hchars _ x hx 91 List.mem_cons_self
    omega
  · have := hchars h x hx c hc
    omega

theorem served_base : Accepted sampleTables samplePrimitives "https://edge.example/base" (some "8.8.8.8") ∧
    Served sampleTables sampleCrate "https://edge.example/base" := by
  have haccepted : Accepted sampleTables samplePrimitives "https://edge.example/base" (some "8.8.8.8") := by
    unfold Accepted
    decide +kernel
  refine ⟨haccepted, (served_iff standard_sampleCrate haccepted).mpr ⟨by decide, by decide, ?_⟩⟩
  exact ⟨text "https", text "edge.example", none, by decide +kernel, by decide +kernel,
    by decide +kernel, by decide +kernel, by decide +kernel⟩

theorem query_not_served : Accepted sampleTables samplePrimitives "https://a.example/?x=1" none ∧
    ¬ Served sampleTables sampleCrate "https://a.example/?x=1" := by
  have hnone : (edgeTunnelUrl sampleCrate (text "https://a.example/?x=1")).isSome = false := by
    decide +kernel
  refine ⟨by unfold Accepted; decide +kernel, ?_⟩
  rintro ⟨url, s, n, hurl, -⟩
  rw [hurl] at hnone
  simp at hnone

end IdenGrid.Agent.Endpoint
