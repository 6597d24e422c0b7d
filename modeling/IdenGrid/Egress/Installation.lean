import IdenGrid.Control.Handover
import IdenGrid.Control.Stores
import IdenGrid.Edge.Mapping
import IdenGrid.Egress.RoundTrip
import IdenGrid.Lib.EnvFile

/-! # From a claim to a running Edge

The answer to a claim, the settings that the installers make of it on both platforms, and the verifier
that the Edge starts with. On Linux the settings are lines of a file that `systemd` reads: what it makes
of the file is a parameter, of which only plain assignments are known (`ReadsPlain`). -/

namespace IdenGrid.Egress.Installation

open IdenGrid.Lib.Double IdenGrid.Lib.EnvFile IdenGrid.Lib.Json IdenGrid.Lib.JsonDumps
open IdenGrid.Lib.PythonFloat IdenGrid.Lib.PythonInt IdenGrid.Lib.Results IdenGrid.Lib.Run
open IdenGrid.Lib.Store IdenGrid.Lib.Unicode
open IdenGrid.Control.Rows IdenGrid.Control.Nodes IdenGrid.Control.Registry IdenGrid.Control.NodeAdmin
open IdenGrid.Control.Enrollments IdenGrid.Control.Registrations IdenGrid.Control.Handlers
open IdenGrid.Control.Fleet IdenGrid.Control.Targets IdenGrid.Control.EdgeTickets
open IdenGrid.Control IdenGrid.Control.Handover
open IdenGrid.Control.Stores hiding Db
open IdenGrid.Edge.Config IdenGrid.Edge.Environment IdenGrid.Edge.Mapping IdenGrid.Edge.Tickets
open IdenGrid.Egress.Codec IdenGrid.Egress.RoundTrip

/-! ## The installers -/

structure Resources where
  maxConnections : ℕ
  maxFrameBytes : ℕ
  maxBytes : ℕ
  idleTimeout : ℕ
  maxDuration : ℕ
  connectTimeout : ℕ
  ticketMaxTtl : ℕ

/-- The `resources` of both answers. -/
def resources : Resources where
  maxConnections := 256
  maxFrameBytes := 1048576
  maxBytes := 2147483648
  idleTimeout := 300
  maxDuration := 28800
  connectTimeout := 10
  ticketMaxTtl := 60

/-- The lines that the Linux installers write. -/
def environment (c : Configuration) : Environ :=
  [(text "EDGE_NODE_ID", text c.nodeName), (text "EDGE_TICKET_SECRET", text c.edgeTicketSecret),
    (text "EDGE_MAX_CONNECTIONS", decimal resources.maxConnections),
    (text "EDGE_MAX_FRAME_BYTES", decimal resources.maxFrameBytes),
    (text "EDGE_MAX_BYTES", decimal resources.maxBytes),
    (text "EDGE_IDLE_TIMEOUT", decimal resources.idleTimeout),
    (text "EDGE_MAX_DURATION", decimal resources.maxDuration),
    (text "EDGE_CONNECT_TIMEOUT", decimal resources.connectTimeout),
    (text "EDGE_TICKET_MAX_TTL", decimal resources.ticketMaxTtl)]

/-- The `edge.json` of the Windows installer; `double` is how a `[double]` is written, with a point or
without. -/
def edgeConfig (double : ℕ → Value) (c : Configuration) : List (List ℕ × Value) :=
  [(text "schema_version", .int 1), (text "node_id", .str (text c.nodeName)),
    (text "ticket_secret", .str (text c.edgeTicketSecret)),
    (text "max_connections", .int resources.maxConnections),
    (text "max_frame_bytes", .int resources.maxFrameBytes),
    (text "max_bytes_per_connection", .int resources.maxBytes),
    (text "idle_timeout", double resources.idleTimeout),
    (text "max_connection_seconds", double resources.maxDuration),
    (text "connect_timeout", double resources.connectTimeout),
    (text "ticket_max_ttl", .int resources.ticketMaxTtl)]

/-- The two ways in which a whole number is a JSON number. -/
def doubles : List (ℕ → Value) := [fun n => .int n, fun n => .float (ofRat n)]

/-- Both installers come to these settings. The Edge of Linux is started by `systemd`, with the
environment that it reads from the file. -/
structure Installs (U : Lib.PythonInt.Unicode) (systemd : List ℕ → Environ) (c : Configuration)
    (S : Settings) : Prop where
  linux : fromEnv U (systemd (fileText (environment c))) = .ok S
  windows : ∀ double ∈ doubles, settingsFromMapping (edgeConfig double c) = .ok S

/-- The verifier of `create_app`. -/
def verifier (S : Settings) : TicketVerifier where
  secret := S.ticketSecret
  nodeId := S.nodeId
  maxTtl := S.ticketMaxTtl

/-- The request is for a store on the node of the configuration, under the same name and secret. -/
def IsFor (c : Configuration) (db : Control.Stores.Db) (r : TicketRequest) : Prop :=
  ∃ store node, db.stores.get? r.storeId = some store ∧
    db.nodes.get? store.edgeNodeId = some node ∧ node.id = c.nodeId ∧ node.name = c.nodeName ∧
    node.sharedSecret = c.edgeTicketSecret

/-- An Edge with these settings accepts the tickets that are issued for its node until they expire,
from five seconds before they are issued on. -/
def Accepts (N : Names) (hmac : List ℕ → List ℕ → List ℕ) (depth : ℕ) (c : Configuration)
    (S : Settings) : Prop :=
  ∀ db r response, r.entropy.length = 18 → IsFor c db r →
    (issueStoreTargetTicket N hmac db r).2 = .ok response →
      ∃ ticket : Ticket, ticket.node = text c.nodeName ∧ ticket.store = decimal r.storeId ∧
        ticket.issuedAt = timestamp r.issueAt ∧ ticket.issuedAt < ticket.expiresAt ∧
        ∀ now, ticket.issuedAt ≤ now + 5 → now < ticket.expiresAt →
          verify hmac depth (verifier S) response.ticket now = .ok ticket

/-- **A configuration is installable**: both installers come to settings that pass all checks of the
Edge, and an Edge with them accepts the tickets for its node. -/
def Installable (U : Lib.PythonInt.Unicode) (systemd : List ℕ → Environ) (N : Names)
    (hmac : List ℕ → List ℕ → List ℕ) (depth : ℕ) (c : Configuration) : Prop :=
  ∃ S, Installs U systemd c S ∧ Accepts N hmac depth c S

/-! ## The settings of a configuration -/

def settings (c : Configuration) : Settings where
  nodeId := text c.nodeName
  ticketSecret := encodeUtf8 (text c.edgeTicketSecret)
  maxConnections := resources.maxConnections
  maxFrameBytes := resources.maxFrameBytes
  maxBytesPerConnection := resources.maxBytes
  idleTimeout := .finite resources.idleTimeout
  maxConnectionSeconds := .finite resources.maxDuration
  connectTimeout := .finite resources.connectTimeout
  ticketMaxTtl := resources.ticketMaxTtl

/-- The node has a name that the Edge takes, and a secret that is long enough. -/
structure Identified (c : Configuration) : Prop where
  name : matchesNodeId (text c.nodeName) = true
  secret : 32 ≤ (encodeUtf8 (text c.edgeTicketSecret)).length

/-- What `systemd` makes of the file are the values of the configuration, which have not been checked
yet. -/
structure ReadBack (U : Lib.PythonInt.Unicode) (systemd : List ℕ → Environ) (c : Configuration) :
    Prop where
  ticketSecret : encode (getenv (systemd (fileText (environment c))) "EDGE_TICKET_SECRET" "") =
    some (settings c).ticketSecret
  fields : parseSettings U (systemd (fileText (environment c)))
    (getenv (systemd (fileText (environment c))) "EDGE_NODE_ID" "") (settings c).ticketSecret =
      some (settings c)

theorem encode_text (s : String) : encode (text s) = some (encodeUtf8 (text s)) := by
  refine if_pos (List.all_eq_true.mpr fun c hc => ?_)
  obtain ⟨ch, -, rfl⟩ := List.mem_map.mp hc
  have hvalid : ch.toNat < 0xD800 ∨ 0xDFFF < ch.toNat ∧ ch.toNat < 0x110000 := ch.valid
  simp only [isScalar, isHigh, isLow, Bool.and_eq_true, Bool.not_eq_true', decide_eq_true_eq,
    decide_eq_false_iff_not]
  omega

variable {U : Lib.PythonInt.Unicode} {c : Configuration}

theorem valid_settings : Valid (settings c) ↔ Identified c := by
  constructor
  · exact fun h => ⟨h.nodeId, h.ticketSecret⟩
  · rintro ⟨hname, hsecret⟩
    exact ⟨hname, hsecret, rfl, rfl, rfl, rfl, rfl, rfl, rfl⟩

theorem parseInt_resource {n : ℕ} (h : (decimal n).length ≤ maxDigits) :
    parseInt U (decimal n) = some (n : ℤ) := by
  rw [parseInt_decimal, if_pos h]

theorem parseFloat_resource {n : ℕ} (h : n < 2 ^ 53) :
    parseFloat U (decimal n) = some (.finite n) := by
  rw [parseFloat_decimal, ofRat_natCast h]

theorem plain_decimal (n : ℕ) : (decimal n).all isPlain = true := by
  refine List.all_eq_true.mpr fun d hd => ?_
  have := isDigit_iff.mp (isDigit_decimal hd)
  exact decide_eq_true (by omega)

/-- The variables of the lines. -/
def lineNames : List String :=
  ["EDGE_NODE_ID", "EDGE_TICKET_SECRET", "EDGE_MAX_CONNECTIONS", "EDGE_MAX_FRAME_BYTES",
    "EDGE_MAX_BYTES", "EDGE_IDLE_TIMEOUT", "EDGE_MAX_DURATION", "EDGE_CONNECT_TIMEOUT",
    "EDGE_TICKET_MAX_TTL"]

theorem plain_environment (hname : (text c.nodeName).all isPlain = true)
    (hsecret : (text c.edgeTicketSecret).all isPlain = true) : ∀ a ∈ environment c, Plain a := by
  have hnames : ∀ name ∈ lineNames, text name ≠ [] ∧ (text name).all isNameChar = true := by decide
  have hvalues : ∀ a ∈ environment c, a.2.all isPlain = true := by
    simp only [environment, List.forall_mem_cons, plain_decimal, hname, hsecret, true_and]
    exact fun _ ha => absurd ha List.not_mem_nil
  intro a ha
  obtain ⟨name, hmem, hfst⟩ : ∃ name ∈ lineNames, text name = a.1 :=
    List.mem_map.mp (show a.1 ∈ lineNames.map text from List.mem_map_of_mem (f := Prod.fst) ha)
  obtain ⟨hne, hchars⟩ := hnames name hmem
  rw [hfst] at hne hchars
  exact ⟨hne, hchars, hvalues a ha⟩

/-- **Plain values are read back.** -/
theorem readBack_of_plain {systemd : List ℕ → Environ} (hsystemd : ReadsPlain systemd)
    (hname : (text c.nodeName).all isPlain = true)
    (hsecret : (text c.edgeTicketSecret).all isPlain = true) : ReadBack U systemd c := by
  have hnodup : ((environment c).map Prod.fst).Nodup :=
    show (lineNames.map text).Nodup by decide
  have hlookup := hsystemd _ hnodup (plain_environment hname hsecret)
  generalize henv : systemd (fileText (environment c)) = environ at hlookup
  simp only [environment, List.forall_mem_cons] at hlookup
  obtain ⟨h1, h2, h3, h4, h5, h6, h7, h8, h9, -⟩ := hlookup
  constructor
  · rw [henv, getenv, h2, Option.getD_some, encode_text]
    rfl
  · rw [henv, parseSettings_eq_some]
    simp only [getenv, h1, h3, h4, h5, h6, h7, h8, h9, Option.getD_some]
    exact ⟨rfl, trivial, parseInt_resource (by decide), parseInt_resource (by decide),
      parseInt_resource (by decide), parseFloat_resource (by decide),
      parseFloat_resource (by decide), parseFloat_resource (by decide),
      parseInt_resource (by decide)⟩

theorem floatRead_double {double : ℕ → Value} (hd : double ∈ doubles) {data : List (List ℕ × Value)}
    {name : String} {n : ℕ} (hget : get data (text name) = some (double n)) (hn : n < 2 ^ 53)
    (hlimit : within (.int n) (limit floatLimits (text name)) = true) :
    FloatRead data name (.finite n) := by
  refine ⟨double n, hget, ?_⟩
  simp only [doubles, List.mem_cons, List.not_mem_nil, or_false] at hd
  rcases hd with rfl | rfl
  · refine ⟨?_, hlimit⟩
    simp [asFloat, ofRat_natCast hn]
  · refine ⟨by rw [asFloat, ofRat_natCast hn], ?_⟩
    show within (.float (ofRat n)) _ = true
    rw [ofRat_natCast hn]
    obtain ⟨hpos, hle⟩ := of_decide_eq_true hlimit
    exact decide_eq_true ⟨by exact_mod_cast hpos, by exact_mod_cast hle⟩

theorem complete_edgeConfig (double : ℕ → Value) : Complete (edgeConfig double c) := by
  have hkeys : (edgeConfig double c).map Prod.fst = (edgeConfig (fun n => .int n)
    ⟨0, "", none, "", "", "", ""⟩).map Prod.fst := rfl
  constructor
  · rw [hkeys]
    decide
  · rw [hkeys]
    decide

/-- **The `edge.json` of a configuration.** -/
theorem settingsFromMapping_edgeConfig {double : ℕ → Value} (hd : double ∈ doubles)
    (hc : Identified c) : settingsFromMapping (edgeConfig double c) = .ok (settings c) := by
  refine settingsFromMapping_eq_ok.mpr ⟨complete_edgeConfig double, ?_⟩
  exact
    { schemaVersion := rfl
      maxConnections := ⟨rfl, rfl⟩
      maxFrameBytes := ⟨rfl, rfl⟩
      maxBytesPerConnection := ⟨rfl, rfl⟩
      ticketMaxTtl := ⟨rfl, rfl⟩
      idleTimeout := floatRead_double hd rfl (by decide) (by decide)
      maxConnectionSeconds := floatRead_double hd rfl (by decide) (by decide)
      connectTimeout := floatRead_double hd rfl (by decide) (by decide)
      ticketSecret := encode_text _
      secretLength := hc.secret
      nodeId := rfl
      nodeMatches := hc.name }

/-- What an `edge.json` of the installer is read as. -/
theorem settings_of_mapping {double : ℕ → Value} (hd : double ∈ doubles) {S : Settings}
    (h : settingsFromMapping (edgeConfig double c) = .ok S) : S = settings c ∧ Identified c := by
  obtain ⟨-, hread⟩ := settingsFromMapping_eq_ok.mp h
  have hnode : S.nodeId = text c.nodeName := (Option.some.inj hread.nodeId).symm
  have hsecret : encode (text c.edgeTicketSecret) = some S.ticketSecret := hread.ticketSecret
  rw [encode_text] at hsecret
  have hc : Identified c :=
    ⟨hnode ▸ hread.nodeMatches, (Option.some.inj hsecret) ▸ hread.secretLength⟩
  exact ⟨Except.ok.inj (h.symm.trans (settingsFromMapping_edgeConfig hd hc)), hc⟩

/-- **What the installers come to.** -/
theorem installs_iff {systemd : List ℕ → Environ} {S : Settings} :
    Installs U systemd c S ↔ S = settings c ∧ Identified c ∧ ReadBack U systemd c := by
  constructor
  · intro h
    obtain ⟨rfl, hc⟩ := settings_of_mapping List.mem_cons_self (h.windows _ List.mem_cons_self)
    obtain ⟨hsecret, hfields, -⟩ := fromEnv_eq_ok.mp h.linux
    exact ⟨rfl, hc, hsecret, hfields⟩
  · rintro ⟨rfl, hc, hsecret, hfields⟩
    exact ⟨fromEnv_eq_ok.mpr ⟨hsecret, hfields, valid_settings.mpr hc⟩,
      fun double hd => settingsFromMapping_edgeConfig hd hc⟩

/-! ## The tickets -/

section Tickets

variable {hmac : List ℕ → List ℕ → List ℕ} {depth : ℕ} {V : TicketVerifier}

/-- **A verifier with the secret and the node of the issuer reads an issued ticket.** -/
theorem authenticate_issue (hbytes : ∀ secret message, ∀ b ∈ hmac secret message, b < 256)
    (depth : ℕ) {I : EdgeTicketIssuer} {store host : List ℕ} {port : ℤ} {ttl : Option ℤ} {issuedAt : ℤ}
    {entropy token : List ℕ} (h : issue hmac I store host port ttl issuedAt entropy = some token)
    (hnode : I.nodeId ≠ [] ∧ NoPair I.nodeId) (hstore : store ≠ [] ∧ NoPair store)
    (hhost : host ≠ [] ∧ NoPair host) (hjti : tokenUrlsafe entropy ≠ [])
    (hport : port = 80 ∨ port = 443) (hsecret : V.secret = I.secret) (hid : V.nodeId = I.nodeId) :
    authenticate hmac (depth + 1) V token = .ok (issuedTicket I store host port ttl issuedAt entropy) := by
  obtain ⟨encoded, hencode, rfl⟩ := Option.map_eq_some_iff.mp h
  obtain ⟨-, raw, hraw, hdump⟩ := encodeTicket_eq_some hencode
  have hdot : 46 ∉ encoded := by
    unfold encodeTicket at hencode
    split_ifs at hencode
    obtain ⟨raw, -, rfl⟩ := Option.map_eq_some_iff.mp hencode
    exact dot_notMem_encode raw
  have hascii : NoPair (tokenUrlsafe entropy) := noPair_of_ascii (tokenUrlsafe_ascii entropy)
  have hread := loads_payload depth hdump
    (by simpa using ⟨hnode.2.1, hstore.2.1, hhost.2.1, hascii.1⟩)
  rw [(noPair_iff hnode.2.1).mp hnode.2, (noPair_iff hstore.2.1).mp hstore.2,
    (noPair_iff hhost.2.1).mp hhost.2, (noPair_iff hascii.1).mp hascii] at hread
  refine (authenticate_decoded (splitToken_append hdot (dot_notMem_encode _))
    (Lib.Base64.decode_encode (hbytes I.secret encoded)) hraw hread).mpr
    ⟨by rw [hsecret], ?_, hid.symm, hport⟩
  exact (claims_payload_iff ..).mpr ⟨hnode.1, hstore.1, hhost.1, hjti, rfl⟩

/-- **The Edge accepts the tickets of its node.** -/
theorem accepts_settings {N : Names} (hidna : ∀ h a, N.idna h = some a → h ≠ [] → a ≠ [])
    (hbytes : ∀ secret message, ∀ b ∈ hmac secret message, b < 256) (hc : Identified c) :
    Accepts N hmac (depth + 1) c (settings c) := by
  rintro db r response hentropy ⟨store, node, hstore, hnode, -, hname, hsecret⟩ h
  obtain ⟨user, store', node', lease, target, hg, hissue⟩ := issueStoreTargetTicket_eq_ok N hmac h
  obtain rfl : store' = store :=
    Option.some.inj ((Table.get?_eq_some.mpr ⟨hg.store_mem, hg.store_id⟩).symm.trans hstore)
  obtain rfl : node' = node :=
    Option.some.inj ((Table.get?_eq_some.mpr ⟨hg.node_mem, hg.node_id⟩).symm.trans hnode)
  obtain ⟨hascii, hport, hallowed⟩ := resolve_eq_ok hg.target_public
  have hport' : target.port = 80 ∨ target.port = 443 := by
    rw [hport]
    simpa [allowedPorts] using hallowed
  have hname_ne : text node'.name ≠ [] := by
    rw [hname]
    intro hnil
    have := hc.name
    rw [hnil] at this
    exact absurd this (by decide)
  have hdecimal : decimal store'.id ≠ [] ∧ NoPair (decimal store'.id) := by
    obtain ⟨d, ds, hd, -⟩ := decimal_eq_cons store'.id
    refine ⟨by rw [hd]; exact List.cons_ne_nil d ds, noPair_of_ascii fun x hx => ?_⟩
    have := isDigit_iff.mp (isDigit_decimal hx)
    omega
  have hjti : tokenUrlsafe r.entropy ≠ [] := by
    have := length_tokenUrlsafe r.entropy
    intro hnil
    rw [hnil, hentropy] at this
    exact absurd this (by decide)
  have hread := authenticate_issue (V := verifier (settings c)) hbytes depth hissue
    ⟨hname_ne, noPair_text _⟩ hdecimal
    ⟨resolve_host_ne hidna hg.target_public, noPair_of_ascii hascii⟩ hjti hport'
    (by rw [issuerOf, hsecret]; rfl) (by rw [issuerOf, hname]; rfl)
  obtain ⟨encoded, hencode, -⟩ := Option.map_eq_some_iff.mp hissue
  obtain ⟨hpos, -⟩ := encodeTicket_eq_some hencode
  have hle : lifetime (issuerOf node') (some (min 60 (remaining lease r.resolvedAt : ℤ))) ≤ 60 :=
    Int.min_le_right ..
  refine ⟨_, ?_, ?_, rfl, ?_, fun now hnow hexp => verify_eq_ok.mpr ⟨hread, hexp, hnow, ?_, ?_⟩⟩
  · rw [← hname]
    rfl
  · rw [← hg.store_id]
    rfl
  · simp only [issuedTicket]
    omega
  · simp only [issuedTicket]
    omega
  · simp only [issuedTicket, verifier, settings, resources]
    omega

/-- **Installable configurations** are those with a name and a secret that the Edge takes and that
`systemd` reads as they were written. -/
theorem installable_iff_identified {systemd : List ℕ → Environ} {N : Names}
    (hidna : ∀ h a, N.idna h = some a → h ≠ [] → a ≠ [])
    (hbytes : ∀ secret message, ∀ b ∈ hmac secret message, b < 256) :
    Installable U systemd N hmac (depth + 1) c ↔ Identified c ∧ ReadBack U systemd c := by
  constructor
  · rintro ⟨S, hS, -⟩
    exact (installs_iff.mp hS).2
  · rintro ⟨hc, hread⟩
    exact ⟨settings c, installs_iff.mpr ⟨rfl, hc, hread⟩, accepts_settings hidna hbytes hc⟩

end Tickets

/-! ## Claims -/

theorem isNodeChar_of_nameChar {ch : Char} (h : EnrollmentClaims.nameChar ch = true) :
    isNodeChar ch.toNat = true := by
  simp only [EnrollmentClaims.nameChar, Char.isAlphanum, Bool.or_eq_true, beq_iff_eq] at h
  have hle : ∀ a b : UInt32, a ≤ b → a.toNat ≤ b.toNat := fun a b hab => hab
  rcases h with (((h | h) | rfl) | rfl) | rfl
  · rcases (show ch.isUpper = true ∨ ch.isLower = true from (Bool.or_eq_true _ _).mp h) with h | h
    · have h1 := hle 'A'.val ch.val (of_decide_eq_true h).1
      have h2 := hle ch.val 'Z'.val (of_decide_eq_true h).2
      exact decide_eq_true (.inl ⟨h1, h2⟩)
    · have h1 := hle 'a'.val ch.val (of_decide_eq_true ((Bool.and_eq_true _ _).mp h).1)
      have h2 := hle ch.val 'z'.val (of_decide_eq_true ((Bool.and_eq_true _ _).mp h).2)
      exact decide_eq_true (.inr (.inl ⟨h1, h2⟩))
  · have h1 := hle '0'.val ch.val (of_decide_eq_true ((Bool.and_eq_true _ _).mp h).1)
    have h2 := hle ch.val '9'.val (of_decide_eq_true ((Bool.and_eq_true _ _).mp h).2)
    exact decide_eq_true (.inr (.inr (.inl ⟨h1, h2⟩)))
  all_goals decide

theorem all_isNodeChar {name : String} (h : name.toList.all EnrollmentClaims.nameChar = true) :
    (text name).all isNodeChar = true := by
  refine List.all_eq_true.mpr fun n hn => ?_
  obtain ⟨ch, hch, rfl⟩ := List.mem_map.mp hn
  exact isNodeChar_of_nameChar (List.all_eq_true.mp h ch hch)

theorem isPlain_of_isNodeChar {n : ℕ} (h : isNodeChar n = true) : isPlain n = true := by
  have := of_decide_eq_true h
  exact decide_eq_true (by omega)

/-- Of a name in the characters of the schema only the length counts. -/
theorem identified_iff_length (h : Proper c.nodeName c.edgeTicketSecret) :
    Identified c ↔ c.nodeName.length ≤ 64 := by
  have hlength : (text c.nodeName).length = c.nodeName.length := List.length_map ..
  constructor
  · intro hc
    have hname := hc.name
    rw [matchesNodeId, Bool.and_eq_true, decide_eq_true_eq, hlength] at hname
    exact hname.1.2
  · intro hle
    refine ⟨?_, h.secret⟩
    rw [matchesNodeId, all_isNodeChar h.chars, hlength, Bool.and_true]
    exact decide_eq_true ⟨h.ne_empty, hle⟩

/-- Such a name, with a plain secret, is read back. -/
theorem readBack_of_proper {systemd : List ℕ → Environ} (hsystemd : ReadsPlain systemd)
    (h : Proper c.nodeName c.edgeTicketSecret) : ReadBack U systemd c :=
  readBack_of_plain hsystemd
    (List.all_eq_true.mpr fun n hn =>
      isPlain_of_isNodeChar (List.all_eq_true.mp (all_isNodeChar h.chars) n hn))
    h.plain

/-- **What is handed over can be installed** exactly if the Edge takes the name and the secret of the
node and `systemd` reads them back; where no update has given it others than plain ones, exactly if the
name has at most 64 characters: the schema of the control plane allows 100. -/
theorem installable_iff {P : Primitives} {N : Names} {systemd : List ℕ → Environ}
    (hsystemd : ReadsPlain systemd)
    (hidna : ∀ h a, N.idna h = some a → h ≠ [] → a ≠ []) {hmac : List ℕ → List ℕ → List ℕ}
    (hbytes : ∀ secret message, ∀ b ∈ hmac secret message, b < 256) {depth : ℕ} (hdepth : 0 < depth)
    {reqs : List Request} {db : Db} (hw : ∀ req ∈ reqs, WellFormed req)
    (hr : run (Fleet.step P) Db.empty reqs = some db) (h : Hands P db c) :
    (Installable U systemd N hmac depth c ↔ Identified c ∧ ReadBack U systemd c) ∧
      (Along (Fleet.step P) Keeps Db.empty reqs →
        (Installable U systemd N hmac depth c ↔ c.nodeName.length ≤ 64)) := by
  obtain ⟨depth, rfl⟩ := Nat.exists_eq_succ_of_ne_zero hdepth.ne'
  refine ⟨installable_iff_identified hidna hbytes, fun hk => ?_⟩
  obtain ⟨n, hn, e, he, hown, hc⟩ := hands_node h
  have hproper := covered_of_run hw hk hr e he n hn hown.symm
  rw [← hc.nodeName, ← hc.edgeTicketSecret] at hproper
  rw [installable_iff_identified hidna hbytes, identified_iff_length hproper]
  exact and_iff_left (readBack_of_proper hsystemd hproper)

/-! ## Names of 64 and of 65 characters -/

def sampleSecret : String := String.ofList (List.replicate 43 'A')

/-- A node with a name of this length is enrolled. -/
def enrolls (length : ℕ) : Request :=
  .createEdgeEnrollment
    { nodeName := String.ofList (List.replicate length 'a')
      endpoint := "https://a.example"
      expectedPublicIpv4 := "8.8.8.8" }
    { actorId := 1
      nodeId := 1
      sharedSecret := sampleSecret
      enrollmentId := "enrollment"
      tokenSecret := "token"
      expiresFrom := 0
      updatedAt := 0
      repliedAt := 0 }

def handedOver (length : ℕ) : Configuration where
  nodeId := 1
  nodeName := String.ofList (List.replicate length 'a')
  domain := some "a.example"
  edgeTicketSecret := sampleSecret
  packageRoute := "route"
  packageSha256 := "sha256"
  reportToken := "enrollment.report"

theorem wellFormed_enrolls (length : ℕ) (h : 1 ≤ length ∧ length ≤ 100) :
    WellFormed (enrolls length) := by
  refine ⟨⟨?_, ?_, ?_⟩, List.replicate 32 0, by decide, by decide⟩
  · simpa using h.1
  · simpa using h.2
  · rw [String.toList_ofList]
    exact List.all_eq_true.mpr fun ch hch => by
      rw [List.eq_of_mem_replicate hch]
      decide

def claims (length : ℕ) : EnrollmentClaims.Claim where
  authorization := some "Enrollment enrollment.token"
  body :=
    { nodeName := String.ofList (List.replicate length 'a')
      publicIpv4 := "8.8.8.8"
      agentVersion := "1" }
  sourceIp := some "8.8.8.8"
  now := 1
  fresh := "fresh"
  reportSecret := "report"

/-- Library functions for the samples; the only endpoint is `https://a.example`. -/
def sampleLibrary : Primitives :=
  { EnrollmentClaims.asciiSample with
    urlsplit := fun _ => some ⟨"https", some "a.example", none, none⟩ }

/-- A run in which the configuration is handed over. -/
theorem hands_enrolls (length : ℕ) (h : ((run (Fleet.step sampleLibrary) Registry.Db.empty
      [enrolls length]).any fun db => decide ((serve sampleLibrary
        ((claims length).request (some ("sha256", "route"))) db).2 =
          .configuration (handedOver length))) = true) :
    ∃ db, run (Fleet.step sampleLibrary) Registry.Db.empty [enrolls length] = some db ∧
      Hands sampleLibrary db (handedOver length) := by
  obtain ⟨db, hr, hanswer⟩ := (Option.any_eq_true _ _).mp h
  exact ⟨db, hr, .enrollment _ _ _ _ (of_decide_eq_true hanswer)⟩

/-- **A name of 64 characters** is installed. -/
theorem installable_name64 : ∃ db,
    run (Fleet.step sampleLibrary) Registry.Db.empty [enrolls 64] = some db ∧
      Hands sampleLibrary db (handedOver 64) ∧
      Installable .ascii readFile Names.sample (fun _ _ => []) 1000 (handedOver 64) := by
  obtain ⟨db, hr, hands⟩ := hands_enrolls 64 (by decide +kernel)
  have hidna : ∀ h a, Names.sample.idna h = some a → h ≠ [] → a ≠ [] := by
    intro h a ha hne
    have ha : (if ∀ c ∈ h, c < 0x80 then some h else none) = some a := ha
    split_ifs at ha
    obtain rfl := Option.some.inj ha
    exact hne
  have hw : ∀ req ∈ [enrolls 64], WellFormed req := by
    simp only [List.forall_mem_cons]
    exact ⟨wellFormed_enrolls 64 (by decide), by simp⟩
  have hiff : Installable .ascii readFile Names.sample (fun _ _ => []) 1000 (handedOver 64) ↔
      (handedOver 64).nodeName.length ≤ 64 :=
    (installable_iff readsPlain_readFile hidna (by simp) (by decide) hw hr hands).2 ⟨trivial, fun _ _ => trivial⟩
  exact ⟨db, hr, hands, hiff.mpr (by decide)⟩

/-- **A name of 65 characters** is enrolled and handed over, and no Edge starts with it. -/
theorem name65_uninstallable : WellFormed (enrolls 65) ∧ ∃ db,
    run (Fleet.step sampleLibrary) Registry.Db.empty [enrolls 65] = some db ∧
      Hands sampleLibrary db (handedOver 65) ∧
      ∀ U systemd N hmac depth, ¬ Installable U systemd N hmac depth (handedOver 65) := by
  obtain ⟨db, hr, hands⟩ := hands_enrolls 65 (by decide +kernel)
  refine ⟨wellFormed_enrolls 65 (by decide), db, hr, hands, ?_⟩
  rintro U systemd N hmac depth ⟨S, hS, -⟩
  have hname := (installs_iff.mp hS).2.1.name
  exact absurd hname (by decide)

end IdenGrid.Egress.Installation
