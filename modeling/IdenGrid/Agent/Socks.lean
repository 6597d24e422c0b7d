import IdenGrid.Lib.IpText
import IdenGrid.Lib.Reads
import IdenGrid.Lib.Results
import IdenGrid.Lib.Unicode

/-! # SOCKS negotiation

`socks.rs`: `parse_request` reads a target out of the bytes of a request, `negotiate` reads the greeting
and the request from the stream and answers the greeting. A Rust string is given by its UTF-8 bytes.

A function fails with an error, of `bail!` or of what `?` passes on, or by a panic. An index or a
slice out of bounds is a panic. The stream is read and written by a `Conversation`. -/

namespace IdenGrid.Agent.Socks

open IdenGrid.Lib IdenGrid.Lib.IpText IdenGrid.Lib.Reads IdenGrid.Lib.Results

inductive Target
  | hostname (host : List UInt8) (port : UInt16)
  | ip (addr : IpAddr) (port : UInt16)
  deriving DecidableEq, Repr

/-- `IpAddr::to_string`. -/
def ipString (ip : IpAddr) : List UInt8 := (render ip).map UInt8.ofNat

/-- `Target::host`. -/
def Target.host : Target → List UInt8
  | .hostname host _ => host
  | .ip addr _ => ipString addr

/-- `Target::port`. -/
def Target.port : Target → UInt16
  | .hostname _ port => port
  | .ip _ port => port

inductive Fault
  | bail (text : String)
  | utf8
  | tryFromSlice
  | tryFromInt
  | addrParse
  | io
  | central
  | webSocket
  | context (text : String) (cause : Fault)
  | panic
  deriving DecidableEq, Repr

/-! ## The request -/

/-- `bytes[i]`. -/
def index (bytes : List UInt8) (i : ℕ) : Except Fault UInt8 :=
  match bytes[i]? with
  | some b => .ok b
  | none => .error .panic

/-- `bytes[start..stop]`. -/
def slice (bytes : List UInt8) (start stop : ℕ) : Except Fault (List UInt8) :=
  if start ≤ stop ∧ stop ≤ bytes.length then .ok ((bytes.take stop).drop start) else .error .panic

/-- `bytes.try_into()`, to an array of length `k`. -/
def tryInto (k : ℕ) (bytes : List UInt8) : Except Fault (Vector UInt8 k) :=
  if h : bytes.length = k then .ok ⟨bytes.toArray, by simpa using h⟩ else .error .tryFromSlice

/-- `u16::from_be_bytes`. -/
def fromBeBytes (b : Vector UInt8 2) : UInt16 := UInt16.ofNat (b[0].toNat * 256 + b[1].toNat)

/-- `std::str::from_utf8`: surrogates are no characters. -/
def fromUtf8 (bytes : List UInt8) : Except Fault (List UInt8) :=
  match Unicode.utf8 (bytes.map UInt8.toNat) with
  | some t => if t.any fun c => Unicode.isHigh c || Unicode.isLow c then .error .utf8 else .ok bytes
  | none => .error .utf8

/-- `u8::is_ascii_alphanumeric`. -/
def isAlphanumeric (b : UInt8) : Bool :=
  (48 ≤ b && b ≤ 57) || (65 ≤ b && b ≤ 90) || (97 ≤ b && b ≤ 122)

/-- `str::to_ascii_lowercase`. -/
def toAsciiLowercase (host : List UInt8) : List UInt8 :=
  host.map fun b => if 65 ≤ b ∧ b ≤ 90 then b + 32 else b

/-- A label that `validate_hostname` refuses; 45 is the hyphen. -/
def badLabel (label : List UInt8) : Bool :=
  label.isEmpty || 63 < label.length || label.head? = some 45 || label.getLast? = some 45 ||
    !label.all fun b => isAlphanumeric b || b = 45

/-- `validate_hostname`; 46 is the dot. -/
def validateHostname (host : List UInt8) : Except Fault Unit :=
  if host.isEmpty || 253 < host.length || host.head? = some 46 || host.getLast? = some 46 ||
      (host.splitOn 46).any badLabel then
    .error (.bail "invalid hostname")
  else .ok ()

/-- The host of a request, and where its port stands. -/
def address (bytes : List UInt8) : Except Fault (List UInt8 × ℕ) := do
  let kind ← index bytes 3
  if kind = 1 ∧ 10 ≤ bytes.length then do
    let a ← index bytes 4
    let b ← index bytes 5
    let c ← index bytes 6
    let d ← index bytes 7
    .ok (ipString (.v4 #v[a, b, c, d]), 8)
  else if kind = 3 then do
    let len ← index bytes 4
    let len := len.toNat
    if ¬ (1 ≤ len ∧ len ≤ 253) ∨ bytes.length < 5 + len + 2 then
      .error (.bail "invalid hostname")
    else do
      let host ← slice bytes 5 (5 + len)
      let host ← fromUtf8 host
      validateHostname host
      .ok (toAsciiLowercase host, 5 + len)
  else if kind = 4 ∧ 22 ≤ bytes.length then do
    let octets ← slice bytes 4 20
    let octets ← tryInto 16 octets
    .ok (ipString (.v6 octets), 20)
  else .error (.bail "unsupported SOCKS address type")

/-- `Target::Ip(host.parse()?, port)`. -/
def parseIp (host : List UInt8) (port : UInt16) : Except Fault Target :=
  match parse (host.map UInt8.toNat) with
  | some addr => .ok (.ip addr port)
  | none => .error .addrParse

/-- `parse_request`. -/
def parseRequest (bytes : List UInt8) : Except Fault Target := do
  let refused ← (if bytes.length < 7 then .ok true else (slice bytes 0 3).map (· ≠ [5, 1, 0]))
  if refused then .error (.bail "only SOCKS5 CONNECT is supported")
  else do
    let (host, offset) ← address bytes
    let port ← slice bytes offset (offset + 2)
    let port ← tryInto 2 port
    let port := fromBeBytes port
    if port ≠ 80 ∧ port ≠ 443 then
      .error (.bail "only target ports 80 and 443 are permitted")
    else do
      let kind ← index bytes 3
      if kind = 3 then .ok (.hostname host port) else parseIp host port

/-! ## The stream -/

/-- What is done for a connection: the answer to the greeting, a reply, the WebSocket to the Edge,
data of the application written to the local client. -/
inductive Act
  | method (code : UInt8)
  | reply (code : UInt8)
  | connected
  | data (bytes : List UInt8)
  deriving DecidableEq, Repr

/-- What is written to the local client. -/
def Act.bytes : Act → List UInt8
  | .method code => [5, code]
  | .reply code => [5, code, 0, 1, 0, 0, 0, 0, 0, 0]
  | .connected => []
  | .data bytes => bytes

/-- The stream to the local client: what its reads return, how many bytes it still takes before a
write fails, and what has been done, the oldest first. -/
structure Socket where
  incoming : List (Option (List UInt8))
  room : ℕ
  log : List Act
  deriving DecidableEq, Repr

/-- What a function that awaits the stream does with it. -/
abbrev Conversation (α : Type) := ExceptT Fault (StateM Socket) α

/-- `?` on a result that the stream has no part in. -/
def pass {α : Type} (r : Except Fault α) : Conversation α := fun s => (r, s)

/-- `read_exact`. -/
def readExact (n : ℕ) : Conversation (List UInt8) := fun s =>
  let (got, rest) := Reads.readExact n s.incoming
  (match got with
    | some bytes => .ok bytes
    | none => .error .io, { s with incoming := rest })

/-- `write_all`; the part that a failing one may have written is not kept. -/
def writeAll (act : Act) : Conversation Unit := fun s =>
  if act.bytes.length ≤ s.room then
    (.ok (), { s with room := s.room - act.bytes.length, log := s.log ++ [act] })
  else (.error .io, { s with room := 0 })

/-- `read_u8`. -/
def readU8 : Conversation UInt8 := do
  let bytes ← readExact 1
  pass (index bytes 0)

/-- `send_reply`. -/
def sendReply (code : UInt8) : Conversation Unit := writeAll (.reply code)

/-- `u8::try_from`. -/
def tryFromU8 (n : ℕ) : Except Fault UInt8 :=
  if n < 256 then .ok (UInt8.ofNat n) else .error .tryFromInt

/-- The length of what follows the head of the request. -/
def tailLength (kind : UInt8) : Conversation ℕ :=
  if kind = 1 then pure 6
  else if kind = 4 then pure 18
  else if kind = 3 then do
    let len ← readU8
    pure (len.toNat + 2)
  else do
    sendReply 8
    throw (.bail "unsupported address type")

/-- The head of the request, with the length byte that has been read put after it. -/
def requestHead (head : List UInt8) (kind : UInt8) (tailLen : ℕ) : Except Fault (List UInt8) :=
  if kind = 3 then do
    let len ← tryFromU8 (tailLen - 2)
    .ok (head ++ [len])
  else .ok head

/-- `negotiate`, from the accepted greeting on. -/
def readRequest : Conversation Target := do
  let head ← readExact 4
  let kind ← pass (index head 3)
  let tailLen ← tailLength kind
  let request ← pass (requestHead head kind tailLen)
  let tail ← readExact tailLen
  pass (parseRequest (request ++ tail))

/-- `negotiate`. -/
def negotiate : Conversation Target := do
  let greeting ← readExact 2
  let version ← pass (index greeting 0)
  let count ← pass (index greeting 1)
  if version ≠ 5 ∨ count = 0 then throw (.bail "invalid SOCKS greeting")
  else do
    let methods ← readExact count.toNat
    if 0 ∉ methods then do
      writeAll (.method 255)
      throw (.bail "no-auth method unavailable")
    else do
      writeAll (.method 0)
      readRequest

/-! ## Hostnames -/

/-- A label of a hostname: letters, digits and hyphens, no hyphen at either end. -/
structure Label (label : List UInt8) : Prop where
  nonempty : label ≠ []
  short : label.length ≤ 63
  chars : ∀ b ∈ label, isAlphanumeric b = true ∨ b = 45
  front : label.head? ≠ some 45
  back : label.getLast? ≠ some 45

/-- Labels with dots between them. -/
def Hostname (host : List UInt8) : Prop :=
  host.length ≤ 253 ∧
    ∃ labels, labels ≠ [] ∧ (∀ l ∈ labels, Label l) ∧ host = List.intercalate [46] labels

theorem badLabel_eq_false {label : List UInt8} : badLabel label = false ↔ Label label := by
  simp only [badLabel, Bool.or_eq_false_iff, List.isEmpty_eq_false_iff, decide_eq_false_iff_not,
    Bool.not_eq_false', List.all_eq_true, Bool.or_eq_true, decide_eq_true_eq, not_lt]
  constructor
  · rintro ⟨⟨⟨⟨hne, hlen⟩, hfront⟩, hback⟩, hchars⟩
    exact ⟨hne, hlen, hchars, hfront, hback⟩
  · rintro ⟨hne, hlen, hchars, hfront, hback⟩
    exact ⟨⟨⟨⟨hne, hlen⟩, hfront⟩, hback⟩, hchars⟩

theorem Label.noDot {label : List UInt8} (h : Label label) : 46 ∉ label := by
  intro hmem
  rcases h.chars 46 hmem with h | h
  · exact absurd h (by decide)
  · exact absurd h (by decide)

theorem head?_intercalate {labels : List (List UInt8)} (hne : labels ≠ [])
    (h : ∀ l ∈ labels, Label l) : (List.intercalate [46] labels).head? ≠ some 46 := by
  obtain ⟨l, ls, rfl⟩ := List.exists_cons_of_ne_nil hne
  have hl := h l List.mem_cons_self
  have hhead : (List.intercalate [46] (l :: ls)).head? = l.head? := by
    cases ls with
    | nil => rw [List.intercalate_singleton]
    | cons m ms =>
      rw [List.intercalate_cons_cons, List.append_assoc,
        List.head?_append_of_ne_nil _ hl.nonempty]
  rw [hhead]
  exact fun heq => hl.noDot (List.mem_of_mem_head? heq)

theorem getLast?_intercalate : ∀ {labels : List (List UInt8)}, labels ≠ [] →
    (∀ l ∈ labels, Label l) → (List.intercalate [46] labels).getLast? ≠ some 46
  | [], hne, _ => absurd rfl hne
  | [l], _, h => by
    rw [List.intercalate_singleton]
    exact fun heq => (h l List.mem_cons_self).noDot (List.mem_of_getLast? heq)
  | l :: m :: ms, _, h => by
    have hm : ∀ x ∈ m :: ms, Label x := fun x hx => h x (List.mem_cons_of_mem l hx)
    have ih := getLast?_intercalate (List.cons_ne_nil m ms) hm
    have hne : List.intercalate [46] (m :: ms) ≠ [] := by
      intro hnil
      have hfirst := (hm m List.mem_cons_self).nonempty
      cases ms with
      | nil => exact hfirst (by rwa [List.intercalate_singleton] at hnil)
      | cons k ks =>
        rw [List.intercalate_cons_cons, List.append_assoc] at hnil
        exact hfirst (List.append_eq_nil_iff.mp hnil).1
    rw [List.intercalate_cons_cons, List.getLast?_append_of_ne_nil _ hne]
    exact ih

/-- **What `validate_hostname` accepts.** -/
theorem validateHostname_eq_ok {host : List UInt8} :
    validateHostname host = .ok () ↔ Hostname host := by
  unfold validateHostname
  constructor
  · intro h
    split_ifs at h with hbad
    simp only [Bool.or_eq_true, decide_eq_true_eq, not_or, not_lt, List.any_eq_true, not_exists,
      not_and, Bool.not_eq_true] at hbad
    obtain ⟨⟨⟨⟨-, hlen⟩, -⟩, -⟩, hlabels⟩ := hbad
    exact ⟨hlen, host.splitOn 46, List.splitOn_ne_nil 46 host,
      fun l hl => badLabel_eq_false.mp (hlabels l hl), (List.intercalate_splitOn 46).symm⟩
  · rintro ⟨hlen, labels, hne, hlabels, rfl⟩
    have hsplit : (List.intercalate [46] labels).splitOn 46 = labels :=
      List.splitOn_intercalate 46 (fun l hl => (hlabels l hl).noDot) hne
    have hhead := head?_intercalate hne hlabels
    have hlast := getLast?_intercalate hne hlabels
    have hnil : (List.intercalate [46] labels).isEmpty = false := by
      rw [List.isEmpty_eq_false_iff]
      intro hnil
      rw [hnil] at hsplit
      obtain rfl : [[]] = labels := hsplit
      exact (hlabels [] List.mem_cons_self).nonempty rfl
    rw [if_neg]
    simp only [hsplit, hnil, Bool.or_eq_true, decide_eq_true_eq, not_or, not_lt, List.any_eq_true,
      not_exists, not_and, Bool.not_eq_true]
    exact ⟨⟨⟨⟨trivial, hlen⟩, hhead⟩, hlast⟩, fun l hl => badLabel_eq_false.mpr (hlabels l hl)⟩

theorem isAlphanumeric_lt {b : UInt8} (h : isAlphanumeric b = true) : b.toNat < 128 := by
  simp only [isAlphanumeric, Bool.or_eq_true, Bool.and_eq_true, decide_eq_true_eq,
    UInt8.le_iff_toNat_le] at h
  simp only [UInt8.reduceToNat] at h
  omega

theorem Hostname.ascii {host : List UInt8} (h : Hostname host) : ∀ b ∈ host, b.toNat < 128 := by
  obtain ⟨-, labels, -, hlabels, rfl⟩ := h
  intro b hb
  rcases Ipv4.mem_intercalate hb with hdot | ⟨l, hl, hbl⟩
  · obtain rfl := List.mem_singleton.mp hdot
    decide
  · rcases (hlabels l hl).chars b hbl with halnum | rfl
    · exact isAlphanumeric_lt halnum
    · decide

theorem Hostname.ne_nil {host : List UInt8} (h : Hostname host) : host ≠ [] := by
  rintro rfl
  have := validateHostname_eq_ok.mpr h
  exact absurd this (by decide)

theorem fromUtf8_ascii {host : List UInt8} (h : ∀ b ∈ host, b.toNat < 128) :
    fromUtf8 host = .ok host := by
  have hlt : ∀ c ∈ host.map UInt8.toNat, c < 0x80 := by
    intro c hc
    obtain ⟨b, hb, rfl⟩ := List.mem_map.mp hc
    exact h b hb
  unfold fromUtf8
  rw [Unicode.utf8_ascii hlt]
  dsimp only
  rw [if_neg]
  intro hany
  obtain ⟨c, hc, hsurrogate⟩ := List.any_eq_true.mp hany
  rw [Bool.or_eq_true, Unicode.isHigh_iff, Unicode.isLow_iff] at hsurrogate
  have := hlt c hc
  omega

theorem fromUtf8_eq_ok {bytes host : List UInt8} (h : fromUtf8 bytes = .ok host) :
    host = bytes := by
  unfold fromUtf8 at h
  split at h
  · split_ifs at h
    exact (Except.ok.inj h).symm
  · exact absurd h (by simp)

/-! ## Indices and slices -/

theorem index_eq_ok {bytes : List UInt8} {i : ℕ} {b : UInt8} :
    index bytes i = .ok b ↔ bytes[i]? = some b := by
  unfold index
  cases bytes[i]? <;> simp

theorem slice_eq_ok {bytes part : List UInt8} {start stop : ℕ} :
    slice bytes start stop = .ok part ↔
      start ≤ stop ∧ stop ≤ bytes.length ∧ part = (bytes.take stop).drop start := by
  unfold slice
  split_ifs with h
  · exact ⟨fun heq => ⟨h.1, h.2, (Except.ok.inj heq).symm⟩, fun heq => congrArg Except.ok heq.2.2.symm⟩
  · exact ⟨fun heq => absurd heq (by simp), fun heq => absurd ⟨heq.1, heq.2.1⟩ h⟩

theorem slice_append (front part back : List UInt8) :
    slice (front ++ (part ++ back)) front.length (front.length + part.length) = .ok part := by
  refine slice_eq_ok.mpr ⟨Nat.le_add_right _ _, ?_, ?_⟩
  · rw [List.length_append, List.length_append]
    omega
  · rw [List.take_length_add_append, List.take_left', List.drop_left]
    rfl

theorem tryInto_eq_ok {k : ℕ} {bytes : List UInt8} {v : Vector UInt8 k} :
    tryInto k bytes = .ok v ↔ v.toList = bytes := by
  unfold tryInto
  constructor
  · intro h
    split_ifs at h with hlen
    obtain rfl := Except.ok.inj h
    rfl
  · rintro rfl
    have hlen : v.toList.length = k := Vector.length_toList
    rw [dif_pos hlen]
    congr 1

/-! ## The encoding of a target -/

def PermittedPort (port : UInt16) : Prop := port = 80 ∨ port = 443

/-- A target that a request may name. -/
def Target.Permitted : Target → Prop
  | .hostname host port => Hostname host ∧ PermittedPort port
  | .ip _ port => PermittedPort port

/-- The target with its hostname in lower case. -/
def Target.lowered : Target → Target
  | .hostname host port => .hostname (toAsciiLowercase host) port
  | .ip addr port => .ip addr port

def portBytes (port : UInt16) : List UInt8 :=
  [UInt8.ofNat (port.toNat / 256), UInt8.ofNat (port.toNat % 256)]

/-- The CONNECT request for a target; there is none for a hostname whose length is no byte. -/
def encode : Target → Option (List UInt8)
  | .hostname host port =>
    if host.length < 256 then
      some ([5, 1, 0, 3, UInt8.ofNat host.length] ++ (host ++ portBytes port))
    else none
  | .ip (.v4 octets) port => some ([5, 1, 0, 1] ++ (octets.toList ++ portBytes port))
  | .ip (.v6 octets) port => some ([5, 1, 0, 4] ++ (octets.toList ++ portBytes port))

theorem tryInto_portBytes (port : UInt16) :
    ∃ v, tryInto 2 (portBytes port) = .ok v ∧ fromBeBytes v = port := by
  refine ⟨#v[UInt8.ofNat (port.toNat / 256), UInt8.ofNat (port.toNat % 256)],
    tryInto_eq_ok.mpr rfl, ?_⟩
  have hlt := port.toNat_lt
  apply UInt16.toNat_inj.mp
  show (UInt16.ofNat ((UInt8.ofNat (port.toNat / 256)).toNat * 256 +
    (UInt8.ofNat (port.toNat % 256)).toNat)).toNat = _
  rw [UInt16.toNat_ofNat', UInt8.toNat_ofNat', UInt8.toNat_ofNat']
  omega

/-- The elements of an array of two. -/
theorem toList_two (v : Vector UInt8 2) : v.toList = [v[0], v[1]] := by
  obtain ⟨⟨l⟩, hl⟩ := v
  obtain ⟨a, b, rfl⟩ := List.length_eq_two.mp hl
  rfl

theorem portBytes_fromBeBytes (v : Vector UInt8 2) : portBytes (fromBeBytes v) = v.toList := by
  have h0 := v[0].toNat_lt
  have h1 := v[1].toNat_lt
  have hport : (fromBeBytes v).toNat = v[0].toNat * 256 + v[1].toNat := by
    unfold fromBeBytes
    rw [UInt16.toNat_ofNat']
    omega
  unfold portBytes
  rw [hport, toList_two]
  have hhigh : (v[0].toNat * 256 + v[1].toNat) / 256 = v[0].toNat := by omega
  have hlow : (v[0].toNat * 256 + v[1].toNat) % 256 = v[1].toNat := by omega
  rw [hhigh, hlow, UInt8.ofNat_toNat, UInt8.ofNat_toNat]

theorem toList_four (v : Vector UInt8 4) : ∃ a b c d, v = #v[a, b, c, d] := by
  obtain ⟨⟨l⟩, hl⟩ := v
  obtain ⟨a, t, rfl⟩ := List.exists_cons_of_length_eq_add_one hl
  obtain ⟨b, c, d, rfl⟩ := List.length_eq_three.mp (Nat.succ_injective hl)
  exact ⟨a, b, c, d, rfl⟩

/-- The text of an address is read back. -/
theorem parse_ipString (ip : IpAddr) : parse ((ipString ip).map UInt8.toNat) = some ip := by
  have hback : (ipString ip).map UInt8.toNat = render ip := by
    unfold ipString
    rw [List.map_map]
    calc (render ip).map (UInt8.toNat ∘ UInt8.ofNat) = (render ip).map id :=
          List.map_congr_left fun c hc => by
            have := render_lt ip c hc
            show (UInt8.ofNat c).toNat = c
            rw [UInt8.toNat_ofNat']
            omega
      _ = render ip := List.map_id _
  rw [hback, parse_render]

/-! ## What `parse_request` accepts -/

/-- A request by the host that `address` finds in it and the offset of the port. -/
inductive Addressed : List UInt8 → List UInt8 → ℕ → Prop
  | ipv4 (x y z a b c d : UInt8) (more : List UInt8) (room : 2 ≤ more.length) :
      Addressed (x :: y :: z :: 1 :: a :: b :: c :: d :: more) (ipString (.v4 #v[a, b, c, d])) 8
  | hostname (x y z len : UInt8) (host more : List UInt8) (length : len.toNat = host.length)
      (valid : Hostname host) (room : 2 ≤ more.length) :
      Addressed (x :: y :: z :: 3 :: len :: (host ++ more)) (toAsciiLowercase host)
        (5 + host.length)
  | ipv6 (x y z : UInt8) (octets : Vector UInt8 16) (more : List UInt8) (room : 2 ≤ more.length) :
      Addressed (x :: y :: z :: 4 :: (octets.toList ++ more)) (ipString (.v6 octets)) 20

/-- The first four elements. -/
theorem exists_four {l : List UInt8} (h : 4 ≤ l.length) : ∃ a b c d t, l = a :: b :: c :: d :: t := by
  rcases l with _ | ⟨a, _ | ⟨b, _ | ⟨c, _ | ⟨d, t⟩⟩⟩⟩
  · simp at h
  · simp at h
  · simp at h
  · simp at h
  · exact ⟨a, b, c, d, t, rfl⟩

theorem Addressed.address_eq {bytes host : List UInt8} {offset : ℕ}
    (h : Addressed bytes host offset) : address bytes = .ok (host, offset) := by
  cases h with
  | ipv4 x y z a b c d more room =>
    have hlen : 10 ≤ (x :: y :: z :: 1 :: a :: b :: c :: d :: more).length := by
      simp only [List.length_cons]
      omega
    refine bind_eq_ok.mpr ⟨1, rfl, ?_⟩
    rw [if_pos ⟨rfl, hlen⟩]
    rfl
  | hostname x y z len host more length valid room =>
    have hpos : 1 ≤ len.toNat := by
      rw [length]
      exact List.length_pos_iff.mpr valid.ne_nil
    have hle : len.toNat ≤ 253 := by
      rw [length]
      exact valid.1
    have hslice : slice (x :: y :: z :: 3 :: len :: (host ++ more)) 5 (5 + len.toNat) = .ok host := by
      rw [length]
      exact slice_append [x, y, z, 3, len] host more
    refine bind_eq_ok.mpr ⟨3, rfl, ?_⟩
    rw [if_neg fun hkind => absurd hkind.1 (by decide), if_pos rfl]
    refine bind_eq_ok.mpr ⟨len, rfl, ?_⟩
    rw [if_neg]
    · refine bind_eq_ok.mpr ⟨host, hslice, ?_⟩
      refine bind_eq_ok.mpr ⟨host, fromUtf8_ascii valid.ascii, ?_⟩
      refine bind_eq_ok.mpr ⟨(), validateHostname_eq_ok.mpr valid, ?_⟩
      rw [length]
    · rintro (hlen | hlen)
      · exact hlen ⟨hpos, hle⟩
      · simp only [List.length_cons, List.length_append] at hlen
        omega
  | ipv6 x y z octets more room =>
    have hoctets : octets.toList.length = 16 := Vector.length_toList
    have hlen : 22 ≤ (x :: y :: z :: 4 :: (octets.toList ++ more)).length := by
      simp only [List.length_cons, List.length_append]
      omega
    have hslice : slice (x :: y :: z :: 4 :: (octets.toList ++ more)) 4 20 = .ok octets.toList := by
      have := slice_append [x, y, z, 4] octets.toList more
      rwa [hoctets] at this
    refine bind_eq_ok.mpr ⟨4, rfl, ?_⟩
    rw [if_neg fun hkind => absurd hkind.1 (by decide), if_neg (by decide), if_pos ⟨rfl, hlen⟩]
    refine bind_eq_ok.mpr ⟨octets.toList, hslice, ?_⟩
    exact bind_eq_ok.mpr ⟨octets, tryInto_eq_ok.mpr rfl, rfl⟩

/-- **What `address` finds.** -/
theorem address_eq_ok {bytes host : List UInt8} {offset : ℕ} :
    address bytes = .ok (host, offset) ↔ Addressed bytes host offset := by
  refine ⟨fun h => ?_, Addressed.address_eq⟩
  obtain ⟨kind, hkind, h⟩ := bind_eq_ok.mp h
  have hindex := index_eq_ok.mp hkind
  obtain ⟨hlt, -⟩ := List.getElem?_eq_some_iff.mp hindex
  obtain ⟨x, y, z, k, body, rfl⟩ := exists_four hlt
  obtain rfl : k = kind := Option.some.inj hindex
  by_cases hv4 : k = 1 ∧ 10 ≤ (x :: y :: z :: k :: body).length
  · obtain ⟨rfl, hlen⟩ := hv4
    simp only [List.length_cons] at hlen
    obtain ⟨a, b, c, d, more, rfl⟩ := exists_four (show 4 ≤ body.length by omega)
    simp only [List.length_cons] at hlen
    have hfound := (Addressed.ipv4 x y z a b c d more (by omega))
    have heq := hfound.address_eq.symm.trans (bind_eq_ok.mpr ⟨1, rfl, h⟩)
    obtain ⟨rfl, rfl⟩ := Prod.mk.inj (Except.ok.inj heq)
    exact hfound
  rw [if_neg hv4] at h
  by_cases hname : k = 3
  · subst hname
    rw [if_pos rfl] at h
    obtain ⟨len, hlen, h⟩ := bind_eq_ok.mp h
    obtain ⟨len', body, rfl⟩ : ∃ b t, body = b :: t := by
      cases body with
      | nil => exact absurd (index_eq_ok.mp hlen) (by simp)
      | cons b t => exact ⟨b, t, rfl⟩
    obtain rfl : len' = len := Option.some.inj (index_eq_ok.mp hlen)
    dsimp only at h
    by_cases hbad : ¬ (1 ≤ len'.toNat ∧ len'.toNat ≤ 253) ∨
        (x :: y :: z :: 3 :: len' :: body).length < 5 + len'.toNat + 2
    · rw [if_pos hbad] at h
      exact absurd h (by simp)
    rw [if_neg hbad] at h
    obtain ⟨part, hpart, h⟩ := bind_eq_ok.mp h
    obtain ⟨host', hhost, h⟩ := bind_eq_ok.mp h
    obtain ⟨_, hvalid, h⟩ := bind_eq_ok.mp h
    obtain ⟨rfl, rfl⟩ := Prod.mk.inj (Except.ok.inj h)
    obtain rfl := fromUtf8_eq_ok hhost
    obtain ⟨-, hle, hpart⟩ := slice_eq_ok.mp hpart
    simp only [List.length_cons, not_or, not_lt] at hbad hle
    have hbody : host' = body.take len'.toNat := by
      rw [hpart, show 5 + len'.toNat = len'.toNat + 5 from Nat.add_comm _ _]
      rfl
    have hlen' : len'.toNat = host'.length := by
      rw [hbody, List.length_take]
      omega
    have hmore : 2 ≤ (body.drop len'.toNat).length := by
      rw [List.length_drop]
      omega
    have hfound := Addressed.hostname x y z len' host' (body.drop len'.toNat) hlen'
      (validateHostname_eq_ok.mp hvalid) hmore
    rw [hlen']
    rwa [hbody, List.take_append_drop, ← hbody] at hfound
  rw [if_neg hname] at h
  by_cases hv6 : k = 4 ∧ 22 ≤ (x :: y :: z :: k :: body).length
  · obtain ⟨rfl, hlen⟩ := hv6
    rw [if_pos ⟨rfl, hlen⟩] at h
    obtain ⟨part, hpart, h⟩ := bind_eq_ok.mp h
    obtain ⟨octets, hoctets, h⟩ := bind_eq_ok.mp h
    obtain ⟨rfl, rfl⟩ := Prod.mk.inj (Except.ok.inj h)
    obtain rfl := tryInto_eq_ok.mp hoctets
    obtain ⟨-, -, hpart⟩ := slice_eq_ok.mp hpart
    have hbody : octets.toList = body.take 16 := hpart
    have hmore : 2 ≤ (body.drop 16).length := by
      simp only [List.length_cons] at hlen
      rw [List.length_drop]
      omega
    have hfound := Addressed.ipv6 x y z octets (body.drop 16) hmore
    rwa [hbody, List.take_append_drop] at hfound
  · rw [if_neg hv6] at h
    exact absurd h (by simp)

theorem parseIp_ipString (ip : IpAddr) (port : UInt16) :
    parseIp (ipString ip) port = .ok (.ip ip port) := by
  unfold parseIp
  rw [parse_ipString]

theorem permittedPort_iff {port : UInt16} : PermittedPort port ↔ ¬ (port ≠ 80 ∧ port ≠ 443) := by
  unfold PermittedPort
  rw [not_and_or, not_not, not_not]

/-- What is left of the request once its host has been found. -/
theorem parseRequest_eq_ok {bytes : List UInt8} {t : Target} :
    parseRequest bytes = .ok t ↔
      7 ≤ bytes.length ∧ slice bytes 0 3 = .ok [5, 1, 0] ∧
        ∃ host offset port kind, Addressed bytes host offset ∧
          slice bytes offset (offset + 2) = .ok (portBytes port) ∧ PermittedPort port ∧
            index bytes 3 = .ok kind ∧
              (if kind = 3 then .ok (.hostname host port) else parseIp host port) = .ok t := by
  constructor
  · intro h
    obtain ⟨refused, hrefused, h⟩ := bind_eq_ok.mp h
    by_cases hr : refused = true
    · rw [if_pos hr] at h
      exact absurd h (by simp)
    rw [if_neg hr] at h
    obtain ⟨⟨host, offset⟩, haddress, h⟩ := bind_eq_ok.mp h
    obtain ⟨part, hpart, h⟩ := bind_eq_ok.mp h
    obtain ⟨v, hv, h⟩ := bind_eq_ok.mp h
    dsimp only at h
    by_cases hport : fromBeBytes v ≠ 80 ∧ fromBeBytes v ≠ 443
    · rw [if_pos hport] at h
      exact absurd h (by simp)
    rw [if_neg hport] at h
    obtain ⟨kind, hkind, h⟩ := bind_eq_ok.mp h
    by_cases hlen : bytes.length < 7
    · rw [if_pos hlen] at hrefused
      exact absurd (Except.ok.inj hrefused).symm hr
    rw [if_neg hlen] at hrefused
    obtain ⟨front, hfront, heq⟩ := map_eq_ok.mp hrefused
    have hconnect : front = [5, 1, 0] := by
      by_contra hne
      exact hr (heq.symm.trans (decide_eq_true hne))
    have hbytes : portBytes (fromBeBytes v) = part :=
      (portBytes_fromBeBytes v).trans (tryInto_eq_ok.mp hv)
    exact ⟨Nat.le_of_not_lt hlen, hconnect ▸ hfront, host, offset, fromBeBytes v, kind,
      address_eq_ok.mp haddress, hbytes ▸ hpart, permittedPort_iff.mpr hport, hkind, h⟩
  · rintro ⟨hlen, hconnect, host, offset, port, kind, haddress, hpart, hport, hkind, ht⟩
    obtain ⟨v, hv, rfl⟩ := tryInto_portBytes port
    refine bind_eq_ok.mpr ⟨false, ?_, ?_⟩
    · rw [if_neg (Nat.not_lt.mpr hlen), hconnect]
      rfl
    rw [if_neg Bool.false_ne_true]
    refine bind_eq_ok.mpr ⟨(host, offset), address_eq_ok.mpr haddress, ?_⟩
    refine bind_eq_ok.mpr ⟨_, hpart, ?_⟩
    refine bind_eq_ok.mpr ⟨v, hv, ?_⟩
    dsimp only
    rw [if_neg (permittedPort_iff.mp hport)]
    exact bind_eq_ok.mpr ⟨kind, hkind, ht⟩

/-- The two bytes after the host. -/
theorem slice_port (front : List UInt8) {more : List UInt8} (h : 2 ≤ more.length) :
    slice (front ++ more) front.length (front.length + 2) = .ok (more.take 2) := by
  have := slice_append front (more.take 2) (more.drop 2)
  rwa [List.take_append_drop, List.length_take_of_le h] at this

theorem slice_connect {x y z : UInt8} {more : List UInt8} :
    slice (x :: y :: z :: more) 0 3 = .ok [5, 1, 0] ↔ x = 5 ∧ y = 1 ∧ z = 0 := by
  rw [slice_eq_ok]
  simp only [List.length_cons, List.take_succ_cons, List.take_zero, List.drop_zero,
    List.cons.injEq, and_true]
  constructor
  · rintro ⟨-, -, hx, hy, hz⟩
    exact ⟨hx.symm, hy.symm, hz.symm⟩
  · rintro ⟨rfl, rfl, rfl⟩
    exact ⟨Nat.zero_le _, by omega, rfl, rfl, rfl⟩

/-- **A request is the encoding of a permitted target**, and what follows it is not looked at. -/
theorem parseRequest_iff {bytes : List UInt8} {t : Target} :
    parseRequest bytes = .ok t ↔ ∃ target request rest, target.Permitted ∧
      encode target = some request ∧ bytes = request ++ rest ∧ t = target.lowered := by
  rw [parseRequest_eq_ok]
  constructor
  · rintro ⟨-, hconnect, host, offset, port, kind, haddress, hpart, hport, hkind, ht⟩
    have hindex := index_eq_ok.mp hkind
    cases haddress with
    | ipv4 x y z a b c d more room =>
      obtain rfl : (1 : UInt8) = kind := Option.some.inj hindex
      obtain ⟨rfl, rfl, rfl⟩ := slice_connect.mp hconnect
      rw [if_neg (by decide), parseIp_ipString] at ht
      have hbytes : more.take 2 = portBytes port :=
        Except.ok.inj ((slice_port [5, 1, 0, 1, a, b, c, d] room).symm.trans hpart)
      refine ⟨.ip (.v4 #v[a, b, c, d]) port, _, more.drop 2, hport, rfl, ?_, (Except.ok.inj ht).symm⟩
      rw [← hbytes]
      show _ = 5 :: 1 :: 0 :: 1 :: a :: b :: c :: d :: (more.take 2 ++ more.drop 2)
      rw [List.take_append_drop]
    | hostname x y z len host more length valid room =>
      obtain rfl : (3 : UInt8) = kind := Option.some.inj hindex
      obtain ⟨rfl, rfl, rfl⟩ := slice_connect.mp hconnect
      rw [if_pos rfl] at ht
      have hoffset : 5 + host.length = ([5, 1, 0, 3, len] ++ host).length := by
        rw [List.length_append]
        rfl
      rw [hoffset] at hpart
      have hbytes : more.take 2 = portBytes port :=
        Except.ok.inj ((slice_port ([5, 1, 0, 3, len] ++ host) room).symm.trans hpart)
      have hlen : UInt8.ofNat host.length = len := by
        rw [← length, UInt8.ofNat_toNat]
      have hshort : host.length < 256 := by
        have := valid.1
        omega
      refine ⟨.hostname host port, [5, 1, 0, 3, len] ++ (host ++ portBytes port), more.drop 2,
        ⟨valid, hport⟩, ?_, ?_, (Except.ok.inj ht).symm⟩
      · rw [encode, if_pos hshort, hlen]
      · rw [← hbytes, List.append_assoc, List.append_assoc, List.take_append_drop]
        rfl
    | ipv6 x y z octets more room =>
      obtain rfl : (4 : UInt8) = kind := Option.some.inj hindex
      obtain ⟨rfl, rfl, rfl⟩ := slice_connect.mp hconnect
      rw [if_neg (by decide), parseIp_ipString] at ht
      have hoctets : octets.toList.length = 16 := Vector.length_toList
      have hoffset : 20 = ([5, 1, 0, 4] ++ octets.toList).length := by
        rw [List.length_append, hoctets]
        rfl
      rw [hoffset] at hpart
      have hbytes : more.take 2 = portBytes port :=
        Except.ok.inj ((slice_port ([5, 1, 0, 4] ++ octets.toList) room).symm.trans hpart)
      refine ⟨.ip (.v6 octets) port, _, more.drop 2, hport, rfl, ?_, (Except.ok.inj ht).symm⟩
      rw [← hbytes, List.append_assoc, List.append_assoc, List.take_append_drop]
      rfl
  · rintro ⟨target, request, rest, hpermitted, hencode, rfl, rfl⟩
    have hmore : ∀ port, 2 ≤ (portBytes port ++ rest).length := fun port => by
      rw [List.length_append]
      exact Nat.le_add_right 2 rest.length
    have hpart : ∀ (front : List UInt8) (port : UInt16),
        slice (front ++ (portBytes port ++ rest)) front.length (front.length + 2) =
          .ok (portBytes port) := fun front port => slice_port front (hmore port)
    cases target with
    | hostname host port =>
      rw [encode] at hencode
      split_ifs at hencode with hshort
      obtain rfl := Option.some.inj hencode
      obtain ⟨valid, hport⟩ := hpermitted
      have hlen : (UInt8.ofNat host.length).toNat = host.length := by
        rw [UInt8.toNat_ofNat']
        omega
      have hbytes : [5, 1, 0, 3, UInt8.ofNat host.length] ++ (host ++ portBytes port) ++ rest =
          5 :: 1 :: 0 :: 3 :: UInt8.ofNat host.length :: (host ++ (portBytes port ++ rest)) := by
        rw [List.append_assoc, List.append_assoc]
        rfl
      have hslice := hpart ([5, 1, 0, 3, UInt8.ofNat host.length] ++ host) port
      rw [List.length_append, List.append_assoc] at hslice
      rw [hbytes]
      refine ⟨?_, slice_connect.mpr ⟨rfl, rfl, rfl⟩, toAsciiLowercase host, 5 + host.length, port, 3,
        .hostname 5 1 0 _ host _ hlen valid (hmore port), hslice, hport, rfl, rfl⟩
      have := hmore port
      simp only [List.length_cons, List.length_append] at this ⊢
      omega
    | ip addr port =>
      cases addr with
      | v4 octets =>
        obtain ⟨a, b, c, d, rfl⟩ := toList_four octets
        obtain rfl := Option.some.inj hencode
        refine ⟨by simp, slice_connect.mpr ⟨rfl, rfl, rfl⟩, _, 8, port, 1,
          .ipv4 5 1 0 a b c d _ (hmore port), hpart [5, 1, 0, 1, a, b, c, d] port, hpermitted, rfl, ?_⟩
        rw [if_neg (by decide), parseIp_ipString]
        rfl
      | v6 octets =>
        obtain rfl := Option.some.inj hencode
        have hoctets : octets.toList.length = 16 := Vector.length_toList
        have hbytes : [5, 1, 0, 4] ++ (octets.toList ++ portBytes port) ++ rest =
            5 :: 1 :: 0 :: 4 :: (octets.toList ++ (portBytes port ++ rest)) := by
          rw [List.append_assoc, List.append_assoc]
          rfl
        have hslice := hpart ([5, 1, 0, 4] ++ octets.toList) port
        rw [List.length_append, List.append_assoc, hoctets] at hslice
        rw [hbytes]
        refine ⟨?_, slice_connect.mpr ⟨rfl, rfl, rfl⟩, _, 20, port, 4,
          .ipv6 5 1 0 octets _ (hmore port), hslice, hpermitted, rfl, ?_⟩
        · simp only [List.length_cons, List.length_append]
          omega
        · rw [if_neg (by decide), parseIp_ipString]
          rfl

/-! ## No panic -/

def Safe {α : Type} (r : Except Fault α) : Prop := r ≠ .error .panic

theorem safe_ok {α : Type} (a : α) : Safe (.ok a : Except Fault α) := fun h => by simp at h

theorem safe_error {α : Type} {e : Fault} (h : e ≠ .panic) : Safe (.error e : Except Fault α) :=
  fun heq => h (Except.error.inj heq)

theorem safe_bail {α : Type} (text : String) : Safe (.error (.bail text) : Except Fault α) :=
  safe_error fun h => Fault.noConfusion h

theorem Safe.bind {α β : Type} {x : Except Fault α} {f : α → Except Fault β} (hx : Safe x)
    (hf : ∀ a, x = .ok a → Safe (f a)) : Safe (x >>= f) := by
  intro h
  rcases bind_eq_error.mp h with h | ⟨a, ha, h⟩
  · exact hx h
  · exact hf a ha h

theorem index_safe {bytes : List UInt8} {i : ℕ} (h : i < bytes.length) : Safe (index bytes i) := by
  unfold index
  rw [List.getElem?_eq_getElem h]
  exact safe_ok _

theorem slice_safe {bytes : List UInt8} {start stop : ℕ} (h : start ≤ stop)
    (h' : stop ≤ bytes.length) : Safe (slice bytes start stop) := by
  unfold slice
  rw [if_pos ⟨h, h'⟩]
  exact safe_ok _

theorem tryInto_safe (k : ℕ) (bytes : List UInt8) : Safe (tryInto k bytes) := by
  unfold tryInto
  split_ifs
  · exact safe_ok _
  · exact safe_error fun h => Fault.noConfusion h

theorem fromUtf8_safe (bytes : List UInt8) : Safe (fromUtf8 bytes) := by
  unfold fromUtf8
  split
  · split_ifs
    · exact safe_error fun h => Fault.noConfusion h
    · exact safe_ok _
  · exact safe_error fun h => Fault.noConfusion h

theorem validateHostname_safe (host : List UInt8) : Safe (validateHostname host) := by
  unfold validateHostname
  split_ifs
  · exact safe_bail _
  · exact safe_ok _

theorem parseIp_safe (host : List UInt8) (port : UInt16) : Safe (parseIp host port) := by
  unfold parseIp
  split
  · exact safe_ok _
  · exact safe_error fun h => Fault.noConfusion h

theorem address_safe {bytes : List UInt8} (h : 7 ≤ bytes.length) : Safe (address bytes) := by
  refine (index_safe (by omega)).bind fun kind _ => ?_
  by_cases hv4 : kind = 1 ∧ 10 ≤ bytes.length
  · have := hv4.2
    rw [if_pos hv4]
    refine (index_safe (by omega)).bind fun a _ => (index_safe (by omega)).bind fun b _ => ?_
    refine (index_safe (by omega)).bind fun c _ => (index_safe (by omega)).bind fun d _ => ?_
    exact safe_ok _
  rw [if_neg hv4]
  by_cases hname : kind = 3
  · rw [if_pos hname]
    refine (index_safe (by omega)).bind fun len _ => ?_
    dsimp only
    by_cases hbad : ¬ (1 ≤ len.toNat ∧ len.toNat ≤ 253) ∨ bytes.length < 5 + len.toNat + 2
    · rw [if_pos hbad]
      exact safe_bail _
    · rw [if_neg hbad]
      refine (slice_safe (Nat.le_add_right _ _) (by omega)).bind fun part _ => ?_
      refine (fromUtf8_safe part).bind fun host _ => (validateHostname_safe host).bind fun _ _ => ?_
      exact safe_ok _
  rw [if_neg hname]
  by_cases hv6 : kind = 4 ∧ 22 ≤ bytes.length
  · have := hv6.2
    rw [if_pos hv6]
    refine (slice_safe (by omega) (by omega)).bind fun part _ => (tryInto_safe 16 part).bind ?_
    exact fun octets _ => safe_ok _
  · rw [if_neg hv6]
    exact safe_bail _

/-- The port stands within the request. -/
theorem Addressed.offset_le {bytes host : List UInt8} {offset : ℕ}
    (h : Addressed bytes host offset) : offset + 2 ≤ bytes.length := by
  cases h with
  | ipv4 x y z a b c d more room =>
    simp only [List.length_cons]
    omega
  | hostname x y z len host more length valid room =>
    simp only [List.length_cons, List.length_append]
    omega
  | ipv6 x y z octets more room =>
    have hoctets : octets.toList.length = 16 := Vector.length_toList
    simp only [List.length_cons, List.length_append]
    omega

/-- **`parse_request` never reads out of bounds.** -/
theorem parseRequest_safe (bytes : List UInt8) : Safe (parseRequest bytes) := by
  by_cases hlen : bytes.length < 7
  · have hshort : parseRequest bytes = .error (.bail "only SOCKS5 CONNECT is supported") := by
      unfold parseRequest
      rw [if_pos hlen]
      rfl
    rw [hshort]
    exact safe_bail _
  unfold parseRequest
  rw [if_neg hlen]
  refine Safe.bind ?_ fun refused _ => ?_
  · intro h
    cases hslice : slice bytes 0 3 with
    | ok part =>
      rw [hslice] at h
      exact absurd h (by simp [Except.map])
    | error e =>
      rw [hslice] at h
      have he : e = .panic := Except.error.inj h
      exact slice_safe (Nat.zero_le 3) (by omega) (hslice.trans (congrArg Except.error he))
  by_cases hr : refused = true
  · rw [if_pos hr]
    exact safe_bail _
  rw [if_neg hr]
  refine (address_safe (by omega)).bind fun found hfound => ?_
  obtain ⟨host, offset⟩ := found
  refine (slice_safe (by omega) (address_eq_ok.mp hfound).offset_le).bind fun part _ => ?_
  refine (tryInto_safe 2 part).bind fun v _ => ?_
  dsimp only
  by_cases hport : fromBeBytes v ≠ 80 ∧ fromBeBytes v ≠ 443
  · rw [if_pos hport]
    exact safe_bail _
  rw [if_neg hport]
  refine (index_safe (by omega)).bind fun kind _ => ?_
  split_ifs
  · exact safe_ok _
  · exact parseIp_safe host _

/-! ## Requests of exact length -/

/-- The length of the request that begins with the bytes, by its address type. -/
def requestLength : List UInt8 → Option ℕ
  | _ :: _ :: _ :: kind :: body =>
    if kind = 1 then some 10
    else if kind = 4 then some 22
    else if kind = 3 then body.head?.map fun len => 7 + len.toNat
    else none
  | _ => none

def ExactLength (bytes : List UInt8) : Prop := requestLength bytes = some bytes.length

/-- The length is told by the beginning of the request. -/
theorem requestLength_append {bytes : List UInt8} {n : ℕ} (h : requestLength bytes = some n)
    (rest : List UInt8) : requestLength (bytes ++ rest) = some n := by
  rcases bytes with _ | ⟨x, _ | ⟨y, _ | ⟨z, _ | ⟨kind, body⟩⟩⟩⟩
  · simp [requestLength] at h
  · simp [requestLength] at h
  · simp [requestLength] at h
  · simp [requestLength] at h
  · simp only [requestLength, List.cons_append] at h ⊢
    split_ifs at h ⊢ with h1 h4 h3
    · exact h
    · exact h
    · obtain ⟨len, hlen, hn⟩ := Option.map_eq_some_iff.mp h
      rw [List.head?_append, hlen]
      exact congrArg some hn

theorem encode_exact {t : Target} {request : List UInt8} (h : encode t = some request) :
    ExactLength request := by
  cases t with
  | hostname host port =>
    rw [encode] at h
    split_ifs at h with hshort
    obtain rfl := Option.some.inj h
    have hlen : (UInt8.ofNat host.length).toNat = host.length := by
      rw [UInt8.toNat_ofNat']
      omega
    show some (7 + (UInt8.ofNat host.length).toNat) = some _
    rw [hlen, List.length_append, List.length_append]
    show some _ = some (5 + (host.length + 2))
    congr 1
    omega
  | ip addr port =>
    cases addr with
    | v4 octets =>
      obtain rfl := Option.some.inj h
      have hoctets : octets.toList.length = 4 := Vector.length_toList
      show some 10 = some _
      rw [List.length_append, List.length_append, hoctets]
      rfl
    | v6 octets =>
      obtain rfl := Option.some.inj h
      have hoctets : octets.toList.length = 16 := Vector.length_toList
      show some 22 = some _
      rw [List.length_append, List.length_append, hoctets]
      rfl

theorem portBytes_inj {p q : UInt16} (h : portBytes p = portBytes q) : p = q := by
  obtain ⟨v, hv, rfl⟩ := tryInto_portBytes p
  obtain ⟨w, hw, rfl⟩ := tryInto_portBytes q
  rw [h, hw] at hv
  rw [Except.ok.inj hv]

theorem toList_inj {k : ℕ} {v w : Vector UInt8 k} (h : v.toList = w.toList) : v = w := by
  have hv := tryInto_eq_ok.mpr h
  have hw : tryInto k w.toList = .ok w := tryInto_eq_ok.mpr rfl
  exact Except.ok.inj (hv.symm.trans hw)

/-- No two targets have the same request. -/
theorem encode_inj {t t' : Target} {request : List UInt8} (h : encode t = some request)
    (h' : encode t' = some request) : t = t' := by
  have hsplit : ∀ {front front' : List UInt8} {port port' : UInt16},
      front ++ portBytes port = front' ++ portBytes port' → front = front' ∧ port = port' := by
    intro front front' port port' heq
    obtain ⟨hfront, hport⟩ := List.append_inj' heq rfl
    exact ⟨hfront, portBytes_inj hport⟩
  cases t with
  | hostname host port =>
    rw [encode] at h
    split_ifs at h
    obtain rfl := Option.some.inj h
    cases t' with
    | hostname host' port' =>
      rw [encode] at h'
      split_ifs at h'
      have heq := Option.some.inj h'
      simp only [List.cons_append, List.nil_append, List.cons.injEq, true_and] at heq
      obtain ⟨rfl, rfl⟩ := hsplit heq.2
      rfl
    | ip addr port' => cases addr <;> simp [encode] at h'
  | ip addr port =>
    cases addr with
    | v4 octets =>
      obtain rfl := Option.some.inj h
      cases t' with
      | hostname host' port' =>
        rw [encode] at h'
        split_ifs at h'
        simp at h'
      | ip addr' port' =>
        cases addr' with
        | v4 octets' =>
          obtain ⟨-, hrest⟩ := List.append_inj (Option.some.inj h') rfl
          obtain ⟨hoctets, rfl⟩ := hsplit hrest
          rw [toList_inj hoctets]
        | v6 octets' => simp [encode] at h'
    | v6 octets =>
      obtain rfl := Option.some.inj h
      cases t' with
      | hostname host' port' =>
        rw [encode] at h'
        split_ifs at h'
        simp at h'
      | ip addr' port' =>
        cases addr' with
        | v4 octets' => simp [encode] at h'
        | v6 octets' =>
          obtain ⟨-, hrest⟩ := List.append_inj (Option.some.inj h') rfl
          obtain ⟨hoctets, rfl⟩ := hsplit hrest
          rw [toList_inj hoctets]

/-- **What is accepted at its exact length**: the requests of permitted targets. -/
theorem parseRequest_exact {bytes : List UInt8} (h : ExactLength bytes) {t : Target} :
    parseRequest bytes = .ok t ↔
      ∃ target : Target, target.Permitted ∧ encode target = some bytes ∧ t = target.lowered := by
  rw [parseRequest_iff]
  constructor
  · rintro ⟨target, request, rest, hpermitted, hencode, rfl, rfl⟩
    have hlen := requestLength_append (encode_exact hencode) rest
    have heq := Option.some.inj (hlen.symm.trans h)
    rw [List.length_append] at heq
    obtain rfl : rest = [] := List.length_eq_zero_iff.mp (by omega)
    exact ⟨target, hpermitted, by rwa [List.append_nil], rfl⟩
  · rintro ⟨target, hpermitted, hencode, rfl⟩
    exact ⟨target, bytes, [], hpermitted, hencode, (List.append_nil _).symm, rfl⟩

/-- **The round trip**, up to the case of the hostname. -/
theorem parseRequest_encode {t : Target} {bytes : List UInt8} (h : encode t = some bytes)
    {t' : Target} : parseRequest bytes = .ok t' ↔ t.Permitted ∧ t' = t.lowered := by
  rw [parseRequest_exact (encode_exact h)]
  constructor
  · rintro ⟨target, hpermitted, hencode, rfl⟩
    obtain rfl := encode_inj hencode h
    exact ⟨hpermitted, rfl⟩
  · rintro ⟨hpermitted, rfl⟩
    exact ⟨t, hpermitted, h, rfl⟩

theorem Target.Permitted.encode_isSome {t : Target} (h : t.Permitted) :
    ∃ bytes, encode t = some bytes := by
  cases t with
  | hostname host port =>
    have hshort : host.length < 256 := by
      have := h.1.1
      omega
    exact ⟨_, if_pos hshort⟩
  | ip addr port => cases addr <;> exact ⟨_, rfl⟩

end IdenGrid.Agent.Socks
