import IdenGrid.Edge.Mapping
import IdenGrid.Lib.JsonSize

/-! # The two loaders

`_settings_from_mapping(_parse_json(raw))` reads the fields of an Edge from a file of at most
`maxConfigBytes` bytes, `Settings.from_env` from the variables of the process. `Orderly`: what the file
gives are settings within all limits, or a `RuntimeError`. `Obtainable` and `Exported` say where
settings can come from: some file, or the variables that hold the texts of their fields. -/

namespace IdenGrid.Edge.Loaders

open IdenGrid.Lib.Double IdenGrid.Lib.Unicode IdenGrid.Lib.Json IdenGrid.Lib.JsonDumps
open IdenGrid.Lib.JsonHooks (Raises Stands Quoted decode_error decode_entries entriesText entryText
  get_of_mem  quoted_flatMap escapes_self written_str)
open IdenGrid.Lib.FloatRepr IdenGrid.Lib.PythonInt IdenGrid.Lib.PythonFloat IdenGrid.Lib.JsonSize
open IdenGrid.Lib.Results IdenGrid.Lib.Utf8
open IdenGrid.Edge.Config IdenGrid.Edge.Environment IdenGrid.Edge.Mapping

/-! ## Errors of the file -/

/-- Settings within all limits, or a `RuntimeError`. -/
def Orderly (depth : ℕ) (raw : List ℕ) : Prop :=
  (∃ S, settingsFromBytes depth raw = .ok S ∧ Valid S) ∨
    ∃ f, settingsFromBytes depth raw = .error f ∧ f.isRuntimeError = true

theorem raises_hooks : Raises hooks (fun f => f.isRuntimeError = true) where
  invalid := rfl
  recursion := rfl
  object fs f h := by
    unfold hooks at h
    dsimp only at h
    split at h
    · obtain rfl := Except.error.inj h
      rfl
    · simp at h
  constant l f h := by
    obtain rfl := Except.error.inj h
    rfl

theorem parseJson_error {depth : ℕ} {raw : List ℕ} {f : Fault} (h : parseJson depth raw = .error f) :
    f.isRuntimeError = true := by
  unfold parseJson at h
  split at h
  · obtain rfl := Except.error.inj h
    rfl
  · rcases bind_eq_error.mp h with h | ⟨v, -, h⟩
    · exact decode_error raises_hooks h
    · split at h
      · simp at h
      · obtain rfl := Except.error.inj h
        rfl

theorem not_overflows_of_reads {data : List (List ℕ × Value)} {S : Settings} (h : Reads data S) :
    ¬ Overflows data := fun ho => by
  rcases floats_iff.mp ho.floats with hlarge | ⟨-, hlarge | ⟨-, hlarge⟩⟩
  · exact not_floatRead_of_tooLarge hlarge _ h.idleTimeout
  · exact not_floatRead_of_tooLarge hlarge _ h.maxConnectionSeconds
  · exact not_floatRead_of_tooLarge hlarge _ h.connectTimeout

/-- **The file is read in an orderly way** unless an integer in a float field is too large. -/
theorem orderly_iff {depth : ℕ} {raw : List ℕ} :
    Orderly depth raw ↔ ¬ ∃ data, parseJson depth raw = .ok data ∧ Overflows data := by
  unfold Orderly settingsFromBytes
  rcases hparse : parseJson depth raw with f | data
  · have := parseJson_error hparse
    simp [bind, Except.bind, this]
  rcases hread : settingsFromMapping data with f | S
  · rcases settingsFromMapping_error hread with ⟨hf, hno⟩ | ⟨rfl, hyes⟩
    · simp [bind, Except.bind, hread, hf, hno]
    · simp [bind, Except.bind, hread, hyes, Fault.isRuntimeError]
  · obtain ⟨-, hreads⟩ := settingsFromMapping_eq_ok.mp hread
    simp [bind, Except.bind, hread, hreads.valid, not_overflows_of_reads hreads]

/-! ## Settings and their texts -/

variable (U : Lib.PythonInt.Unicode)

def value (x : Float64) : ℚ := if x.negative then -x.magnitude else x.magnitude

/-- `repr` of a float. -/
inductive FloatText : Binary64 → List ℕ → Prop
  | nan : FloatText .nan (text "nan")
  | inf (negative : Bool) : FloatText (.inf negative) (if negative then text "-inf" else text "inf")
  | finite (x : Float64) : FloatText (.finite (value x)) (repr x)

/-- The variable has this text. -/
def Holds (environ : Environ) (name : String) (t : List ℕ) : Prop :=
  environ.lookup (text name) = some t

/-- The variables hold the texts of the fields. -/
structure Textual (S : Settings) (environ : Environ) : Prop where
  nodeId : Holds environ "EDGE_NODE_ID" S.nodeId
  ticketSecret : ∃ t, Holds environ "EDGE_TICKET_SECRET" t ∧ encode t = some S.ticketSecret
  maxConnections : ∃ t, Holds environ "EDGE_MAX_CONNECTIONS" t ∧ dumpInt S.maxConnections = some t
  maxFrameBytes : ∃ t, Holds environ "EDGE_MAX_FRAME_BYTES" t ∧ dumpInt S.maxFrameBytes = some t
  maxBytesPerConnection : ∃ t,
    Holds environ "EDGE_MAX_BYTES" t ∧ dumpInt S.maxBytesPerConnection = some t
  idleTimeout : ∃ t, Holds environ "EDGE_IDLE_TIMEOUT" t ∧ FloatText S.idleTimeout t
  maxConnectionSeconds : ∃ t, Holds environ "EDGE_MAX_DURATION" t ∧ FloatText S.maxConnectionSeconds t
  connectTimeout : ∃ t, Holds environ "EDGE_CONNECT_TIMEOUT" t ∧ FloatText S.connectTimeout t
  ticketMaxTtl : ∃ t, Holds environ "EDGE_TICKET_MAX_TTL" t ∧ dumpInt S.ticketMaxTtl = some t

/-- The variables of a process end at their first NUL. -/
def Possible (environ : Environ) : Prop := ∀ v ∈ environ, 0 ∉ v.1 ∧ 0 ∉ v.2

/-- The environment loader gives these settings for the texts of their fields. -/
def Exported (S : Settings) : Prop :=
  ∃ environ, Possible environ ∧ Textual S environ ∧ fromEnv U environ = .ok S

/-- Some file gives these settings. -/
def Obtainable (depth : ℕ) (S : Settings) : Prop :=
  ∃ raw, (∀ b ∈ raw, b < 256) ∧ raw.length ≤ maxConfigBytes ∧ settingsFromBytes depth raw = .ok S

/-- The floats are values of the format. -/
structure Genuine (S : Settings) : Prop where
  idleTimeout : ∃ q, S.idleTimeout = ofRat q
  maxConnectionSeconds : ∃ q, S.maxConnectionSeconds = ofRat q
  connectTimeout : ∃ q, S.connectTimeout = ofRat q

/-- The fields with their values, where this text is the secret. -/
def entries (S : Settings) (secret : List ℕ) : List (List ℕ × Value) :=
  [(text "schema_version", .int 1), (text "node_id", .str S.nodeId),
    (text "ticket_secret", .str secret), (text "max_connections", .int S.maxConnections),
    (text "max_frame_bytes", .int S.maxFrameBytes),
    (text "max_bytes_per_connection", .int S.maxBytesPerConnection),
    (text "idle_timeout", .float S.idleTimeout),
    (text "max_connection_seconds", .float S.maxConnectionSeconds),
    (text "connect_timeout", .float S.connectTimeout), (text "ticket_max_ttl", .int S.ticketMaxTtl)]

/-- The least number of bytes of a file with these fields. -/
noncomputable def fileSize (S : Settings) (secret : List ℕ) : ℕ := objectSize (entries S secret)

/-! ## Texts of numbers -/

theorem finite_of_floatOk {name : String} {x : Binary64} (h : floatOk name x = true) :
    ∃ q, x = .finite q ∧ 0 < q ∧ q ≤ limit floatLimits (text name) := by
  cases x with
  | finite q => exact ⟨q, rfl, of_decide_eq_true h⟩
  | _ => simp [floatOk, within] at h

/-- A positive value of the format is a float. -/
theorem exists_float64 {x : Binary64} (hx : ∃ p, x = ofRat p) {q : ℚ} (hq : x = .finite q)
    (h : 0 < q) : ∃ y : Float64, y.negative = false ∧ y.magnitude = q := by
  obtain ⟨p, rfl⟩ := hx
  obtain ⟨hround, hden⟩ := ofRat_finite hq
  rw [abs_of_pos h] at hround hden
  exact ⟨⟨false, q, h.le, hround, hden⟩, rfl, rfl⟩

theorem genuine_of_floatText {x : Binary64} {t : List ℕ} (h : FloatText x t) {q : ℚ}
    (hq : x = .finite q) (hpos : 0 < q) : ∃ p, x = ofRat p := by
  cases h with
  | nan => simp at hq
  | inf negative => simp at hq
  | finite y =>
    have hvalue : value y = q := Binary64.finite.inj hq
    unfold value at hvalue ⊢
    have hnonneg := y.nonneg
    split_ifs at hvalue ⊢ with hneg
    · linarith
    · exact ⟨y.magnitude, y.rounded.symm⟩

theorem breaks_nil : Breaks [] := fun c hc => by simp at hc

/-- **The text of a float is read as the float.** -/
theorem parseFloat_repr {y : Float64} (h : y.negative = false) :
    parseFloat U (repr y) = some (.finite y.magnitude) := by
  have hwritten := written_reprMagnitude y
  have hscan := scanMagnitude_reprMagnitude y.nonneg y.rounded y.dyadic breaks_nil
  rw [List.append_nil] at hscan
  unfold Lib.FloatRepr.repr
  rw [h]
  exact parseFloat_number U hwritten.numeric hwritten.head hscan

theorem spells_repr (y : Float64) : Spells (reprMagnitude y.magnitude) (.float (.finite y.magnitude)) := by
  have hscan := scanMagnitude_reprMagnitude y.nonneg y.rounded y.dyadic breaks_nil
  obtain ⟨c, hc, hdigit⟩ := (written_reprMagnitude y).head
  have hnumber : scanNumber (reprMagnitude y.magnitude ++ []) =
      .ok (.float (.finite y.magnitude), []) := by
    have := isDigit_iff.mp hdigit
    rw [scanNumber, if_neg]
    · exact hscan
    · rw [List.append_nil, hc, Option.some.injEq]
      omega
  obtain ⟨u, hu, hspells⟩ := scanNumber_split hnumber
  rwa [List.append_cancel_right hu]

/-- An integer whose float is within the limits of a float field is. -/
theorem within_of_floatOk {v : Value} {x : Binary64} {name : String} (hx : asFloat v = some x)
    (h : floatOk name x = true) : within v (limit floatLimits (text name)) = true := by
  obtain ⟨q, rfl, hpos, hle⟩ := finite_of_floatOk h
  have hbound := limit_floatLimits_le (text name)
  have hsmall : q < 2 ^ 53 := by
    have hcast : ((limit floatLimits (text name) : ℤ) : ℚ) ≤ 32400 := by exact_mod_cast hbound
    linarith
  cases v with
  | int n =>
    have hn : ofRat n = .finite q := Option.some.inj hx
    have hn0 : 0 < n := by
      by_contra hneg
      have := ofRat_nonpos (x := n) (by exact_mod_cast not_lt.mp hneg) hn
      linarith
    obtain ⟨m, rfl⟩ := Int.eq_ofNat_of_zero_le hn0.le
    have hm : m < 2 ^ 53 := by
      by_contra hlarge
      have := le_of_ofRat (x := ((m : ℤ) : ℚ)) (by exact_mod_cast not_lt.mp hlarge) hn
      linarith
    have hq : ((m : ℤ) : ℚ) = q := by
      have := ofRat_natCast hm
      rw [Int.cast_natCast] at hn ⊢
      exact Binary64.finite.inj (this.symm.trans hn)
    refine decide_eq_true ⟨hn0, ?_⟩
    rw [← hq] at hle
    exact_mod_cast hle
  | float y =>
    obtain rfl := Option.some.inj hx
    exact decide_eq_true ⟨hpos, hle⟩
  | _ => simp [asFloat] at hx

theorem length_decimal_lt {n : ℕ} (h : n < 10 ^ maxDigits) : (decimal n).length ≤ maxDigits := by
  unfold decimal
  split_ifs
  · decide
  · rw [List.length_map, List.length_reverse]
    exact (Nat.digits_length_le_iff (by decide) _).mpr h

theorem limit_integerLimits_le (name : List ℕ) : limit integerLimits name ≤ 1024 ^ 4 :=
  limit_le (by decide) (by decide) name

/-- An integer within its limits, and its numeral. -/
theorem numeral_of_integerOk {name : String} {n : ℤ} (h : integerOk name n = true) :
    ∃ m : ℕ, n = m ∧ (decimal m).length ≤ maxDigits := by
  obtain ⟨hpos, hle⟩ := of_decide_eq_true h
  have hbound := limit_integerLimits_le (text name)
  obtain ⟨m, rfl⟩ := Int.eq_ofNat_of_zero_le hpos.le
  refine ⟨m, rfl, ?_⟩
  have hm : m < 10 ^ 16 := by omega
  exact length_decimal_lt (hm.trans_le (Nat.pow_le_pow_right (by decide) (by decide)))

/-! ## The environment -/

variable {U}

theorem parseInt_dumpInt {name : String} {n : ℤ} (h : integerOk name n = true) {t : List ℕ}
    (ht : dumpInt n = some t) : parseInt U t = some n := by
  obtain ⟨m, rfl, hlength⟩ := numeral_of_integerOk h
  rw [dumpInt, Int.natAbs_natCast, if_neg (by omega), if_neg (by omega)] at ht
  obtain rfl := Option.some.inj ht
  rw [parseInt_decimal, if_pos hlength]

/-- The numeral of an integer within its limits has digits only. -/
theorem exists_numeral {name : String} {n : ℤ} (h : integerOk name n = true) :
    ∃ t, dumpInt n = some t ∧ 0 ∉ t := by
  obtain ⟨m, rfl, hlength⟩ := numeral_of_integerOk h
  refine ⟨decimal m, ?_, fun hzero => ?_⟩
  · rw [dumpInt, Int.natAbs_natCast, if_neg (by omega), if_neg (by omega)]
  · exact absurd (isDigit_decimal hzero) (by decide)

/-- The text of a float within its limits, which is read as the float. -/
theorem exists_floatText {name : String} {x : Binary64} (h : floatOk name x = true)
    (hx : ∃ q, x = ofRat q) : ∃ t, FloatText x t ∧ parseFloat U t = some x ∧ 0 ∉ t := by
  obtain ⟨q, rfl, hpos, -⟩ := finite_of_floatOk h
  obtain ⟨y, hy, rfl⟩ := exists_float64 hx rfl hpos
  have hvalue : value y = y.magnitude := by simp [value, hy]
  refine ⟨repr y, ?_, parseFloat_repr U hy, fun hzero => ?_⟩
  · have htext := FloatText.finite y
    rwa [hvalue] at htext
  · exact absurd (numeric_repr y 0 hzero) (by decide)

theorem nodeId_no_nul {node : List ℕ} (h : matchesNodeId node = true) : 0 ∉ node := fun hzero => by
  rw [matchesNodeId, Bool.and_eq_true] at h
  exact absurd (List.all_eq_true.mp h.2 0 hzero) (by decide)

/-- **Where the environment gives settings**: they are within all limits, and their secret is a text
without NUL. -/
theorem exported_iff {S : Settings} : Exported U S ↔
    Valid S ∧ Genuine S ∧ ∃ t, encode t = some S.ticketSecret ∧ 0 ∉ t := by
  constructor
  · rintro ⟨environ, hpossible, h, henv⟩
    obtain ⟨-, -, hv⟩ := fromEnv_eq_ok.mp henv
    have hgenuine : ∀ {name x}, floatOk name x = true → (∃ t, FloatText x t) → ∃ q, x = ofRat q := by
      rintro name x hok ⟨t, ht⟩
      obtain ⟨q, hq, hpos, -⟩ := finite_of_floatOk hok
      exact genuine_of_floatText ht hq hpos
    obtain ⟨t, ht, hsecret⟩ := h.ticketSecret
    refine ⟨hv, ⟨?_, ?_, ?_⟩, t, hsecret, ?_⟩
    · exact hgenuine hv.idleTimeout (h.idleTimeout.imp fun _ => And.right)
    · exact hgenuine hv.maxConnectionSeconds (h.maxConnectionSeconds.imp fun _ => And.right)
    · exact hgenuine hv.connectTimeout (h.connectTimeout.imp fun _ => And.right)
    · obtain ⟨before, after, rfl, -⟩ := List.lookup_eq_some_iff.mp ht
      exact (hpossible (text "EDGE_TICKET_SECRET", t) (by simp)).2
  · rintro ⟨hv, hgenuine, t, hsecret, hnul⟩
    obtain ⟨t₁, h₁, z₁⟩ := exists_numeral hv.maxConnections
    obtain ⟨t₂, h₂, z₂⟩ := exists_numeral hv.maxFrameBytes
    obtain ⟨t₃, h₃, z₃⟩ := exists_numeral hv.maxBytesPerConnection
    obtain ⟨t₄, h₄, z₄⟩ := exists_numeral hv.ticketMaxTtl
    obtain ⟨u₁, x₁, p₁, y₁⟩ := exists_floatText (U := U) hv.idleTimeout hgenuine.idleTimeout
    obtain ⟨u₂, x₂, p₂, y₂⟩ :=
      exists_floatText (U := U) hv.maxConnectionSeconds hgenuine.maxConnectionSeconds
    obtain ⟨u₃, x₃, p₃, y₃⟩ := exists_floatText (U := U) hv.connectTimeout hgenuine.connectTimeout
    let environ : Environ := [(text "EDGE_NODE_ID", S.nodeId), (text "EDGE_TICKET_SECRET", t),
      (text "EDGE_MAX_CONNECTIONS", t₁), (text "EDGE_MAX_FRAME_BYTES", t₂),
      (text "EDGE_MAX_BYTES", t₃), (text "EDGE_IDLE_TIMEOUT", u₁), (text "EDGE_MAX_DURATION", u₂),
      (text "EDGE_CONNECT_TIMEOUT", u₃), (text "EDGE_TICKET_MAX_TTL", t₄)]
    have htextual : Textual S environ := ⟨rfl, ⟨t, rfl, hsecret⟩, ⟨t₁, rfl, h₁⟩, ⟨t₂, rfl, h₂⟩,
      ⟨t₃, rfl, h₃⟩, ⟨u₁, rfl, x₁⟩, ⟨u₂, rfl, x₂⟩, ⟨u₃, rfl, x₃⟩, ⟨t₄, rfl, h₄⟩⟩
    refine ⟨environ, ?_, htextual, fromEnv_eq_ok.mpr ⟨?_, parseSettings_eq_some.mpr ?_, hv⟩⟩
    · simp only [Possible, environ, List.forall_mem_cons]
      exact ⟨⟨by decide, nodeId_no_nul hv.nodeId⟩, ⟨by decide, hnul⟩, ⟨by decide, z₁⟩,
        ⟨by decide, z₂⟩, ⟨by decide, z₃⟩, ⟨by decide, y₁⟩, ⟨by decide, y₂⟩, ⟨by decide, y₃⟩,
        ⟨by decide, z₄⟩, by simp⟩
    · exact hsecret
    · exact ⟨rfl, rfl, parseInt_dumpInt hv.maxConnections h₁, parseInt_dumpInt hv.maxFrameBytes h₂,
        parseInt_dumpInt hv.maxBytesPerConnection h₃, p₁, p₂, p₃, parseInt_dumpInt hv.ticketMaxTtl h₄⟩

/-! ## The file -/

theorem plain_hooks : Plain hooks where
  object fs v h := by
    unfold hooks at h
    dsimp only at h
    split at h
    · simp at h
    · exact (Except.ok.inj h).symm
  constant l v h := by simp [hooks] at h

theorem nodup_of_duplicate : ∀ {seen keys : List (List ℕ)}, duplicate seen keys = none →
    keys.Nodup ∧ ∀ key ∈ keys, key ∉ seen
  | _, [], _ => ⟨List.nodup_nil, by simp⟩
  | seen, key :: keys, h => by
    rw [duplicate] at h
    split_ifs at h with hseen
    obtain ⟨hnodup, hnew⟩ := nodup_of_duplicate h
    refine ⟨List.nodup_cons.mpr ⟨fun hmem => hnew key hmem List.mem_cons_self, hnodup⟩, ?_⟩
    rw [List.forall_mem_cons]
    exact ⟨hseen, fun k hk hmem => hnew k hk (List.mem_cons_of_mem key hmem)⟩

theorem duplicate_of_nodup : ∀ {seen keys : List (List ℕ)}, keys.Nodup → (∀ key ∈ keys, key ∉ seen) →
    duplicate seen keys = none
  | _, [], _, _ => rfl
  | seen, key :: keys, hnodup, hnew => by
    obtain ⟨hkey, hkeys⟩ := List.nodup_cons.mp hnodup
    obtain ⟨hfirst, hrest⟩ := List.forall_mem_cons.mp hnew
    rw [duplicate, if_neg hfirst]
    refine duplicate_of_nodup hkeys fun k hk hmem => ?_
    rcases List.mem_cons.mp hmem with rfl | hmem
    · exact hkey hk
    · exact hrest k hk hmem

theorem hooks_object {data : List (List ℕ × Value)} :
    hooks.object data = .ok (.obj data) ↔ (data.map Prod.fst).Nodup := by
  unfold hooks
  dsimp only
  split
  · next key h =>
    refine iff_of_false (by simp) fun hnodup => ?_
    rw [duplicate_of_nodup hnodup (by simp)] at h
    simp at h
  · next h => exact iff_of_true rfl (nodup_of_duplicate h).1

theorem scalar_iff {t : List ℕ} :
    t.all isScalar = true ↔ ∀ c ∈ t, c < 0xD800 ∨ 0xE000 ≤ c ∧ c < 0x110000 := by
  rw [List.all_eq_true]
  refine forall₂_congr fun c _ => ?_
  simp only [isScalar, isHigh, isLow, Bool.and_eq_true, Bool.not_eq_true', decide_eq_true_eq,
    decide_eq_false_iff_not]
  omega

theorem encode_eq_some {t s : List ℕ} : encode t = some s ↔
    (∀ c ∈ t, c < 0xD800 ∨ 0xE000 ≤ c ∧ c < 0x110000) ∧ encodeUtf8 t = s := by
  unfold encode
  by_cases h : t.all isScalar = true
  · rw [if_pos h, Option.some.injEq]
    exact (and_iff_right (scalar_iff.mp h)).symm
  · rw [if_neg h]
    exact iff_of_false (by simp) fun hs => h (scalar_iff.mpr hs.1)

/-- A text is known from its bytes. -/
theorem encode_inj {t u s : List ℕ} (ht : encode t = some s) (hu : encode u = some s) : t = u := by
  obtain ⟨hscalar, rfl⟩ := encode_eq_some.mp ht
  obtain ⟨hscalar', heq⟩ := encode_eq_some.mp hu
  have hread := utf8_encodeUtf8 (t := t) fun c hc => by have := hscalar c hc; omega
  rw [← heq, utf8_encodeUtf8 fun c hc => by have := hscalar' c hc; omega] at hread
  exact (Option.some.inj hread).symm

/-- What is decoded has no more bytes than the file. -/
theorem bytes_decodeUtf8Sig {raw t : List ℕ} (h : decodeUtf8Sig raw = some t) :
    bytes t ≤ raw.length := by
  unfold decodeUtf8Sig at h
  obtain ⟨h, -⟩ := Option.filter_eq_some_iff.mp h
  rw [bytes, encodeUtf8_of_utf8 h]
  split
  · simp only [List.length_cons]
    omega
  · exact le_rfl

theorem decodeUtf8Sig_encodeUtf8 {c : ℕ} {t : List ℕ} (hc : c < 0x80)
    (h : ∀ d ∈ c :: t, d < 0xD800 ∨ 0xE000 ≤ d ∧ d < 0x110000) :
    decodeUtf8Sig (encodeUtf8 (c :: t)) = some (c :: t) := by
  have hmark : ∀ r, encodeUtf8 (c :: t) ≠ 0xEF :: 0xBB :: 0xBF :: r := fun r hr => by
    rw [encodeUtf8_cons, encodeUtf8_one hc, List.singleton_append] at hr
    have := (List.cons.inj hr).1
    omega
  unfold decodeUtf8Sig
  split
  · next r hr => exact absurd hr (hmark r)
  · rw [utf8_encodeUtf8 fun d hd => by have := h d hd; omega, Option.filter_some, if_pos]
    rw [Bool.not_eq_true', List.any_eq_false]
    intro d hd hsurrogate
    have := h d hd
    rw [Bool.or_eq_true, isHigh_iff, isLow_iff] at hsurrogate
    omega

theorem parseJson_eq_ok {depth : ℕ} {raw : List ℕ} {data : List (List ℕ × Value)} :
    parseJson depth raw = .ok data ↔
      ∃ t, decodeUtf8Sig raw = some t ∧ Lib.JsonHooks.decode hooks depth t = .ok (.obj data) := by
  unfold parseJson
  rcases decodeUtf8Sig raw with _ | t
  · simp
  simp only [Option.some.injEq, exists_eq_left', bind_eq_ok]
  constructor
  · rintro ⟨v, hv, h⟩
    split at h
    · obtain rfl := Except.ok.inj h
      exact hv
    · simp at h
  · exact fun h => ⟨_, h, rfl⟩

theorem nodup_fields : fields.Nodup := by decide +kernel

theorem mem_of_get {data : List (List ℕ × Value)} {key : List ℕ} {v : Value}
    (h : get data key = some v) : (key, v) ∈ data := by
  obtain ⟨⟨k, w⟩, hfind, rfl⟩ := Option.map_eq_some_iff.mp h
  have hkey : k = key := by simpa using List.find?_some hfind
  rw [← hkey]
  exact List.mem_of_find?_eq_some hfind

section

variable {data : List (List ℕ × Value)} {S : Settings} {t : List ℕ}

/-- What the mapping has for a name. -/
def field (data : List (List ℕ × Value)) (key : List ℕ) : List ℕ × Value :=
  (key, (get data key).getD .null)

/-- The pairs of a complete mapping, in the order of the fields. -/
theorem perm_fields (hnodup : (data.map Prod.fst).Nodup) (hc : Complete data) :
    data.Perm (fields.map (field data)) := by
  have hkeys : (data.map Prod.fst).Perm fields :=
    (List.perm_ext_iff_of_nodup hnodup nodup_fields).mpr fun key => ⟨hc.known key, hc.all key⟩
  have hmap : (data.map Prod.fst).map (field data) = data := by
    rw [List.map_map]
    refine (List.map_congr_left fun f hf => ?_).trans (List.map_id data)
    rw [Function.comp_apply, field, get_of_mem hnodup hf]
    rfl
  have hperm := hkeys.map (field data)
  rwa [hmap] at hperm

theorem entrySize_le {key : List ℕ} {v w : Value} (hget : get data key = some w)
    (hsize : size v ≤ size w) : entrySize (key, v) ≤ entrySize (field data key) := by
  rw [field, hget]
  exact Nat.add_le_add_left hsize _

theorem size_float_le {name : String} {x : Binary64} {v : Value} (hx : asFloat v = some x)
    (hw : within v (limit floatLimits (text name)) = true) : size (.float x) ≤ size v := by
  cases v with
  | int n =>
    obtain ⟨hpos, hle⟩ := of_decide_eq_true hw
    have hbound := limit_floatLimits_le (text name)
    obtain ⟨m, rfl⟩ := Int.eq_ofNat_of_zero_le hpos.le
    have hm : m < 10 ^ 5 := by omega
    have hlength : (decimal m).length ≤ maxDigits :=
      length_decimal_lt (hm.trans_le (Nat.pow_le_pow_right (by decide) (by decide)))
    exact numeralSize_le (spells_decimal hlength) hx
  | float y =>
    obtain rfl := Option.some.inj hx
    exact le_rfl
  | _ => simp [asFloat] at hx

/-- **No mapping of these settings has a shorter text** than they have. -/
theorem fileSize_le (hnodup : (data.map Prod.fst).Nodup) (hc : Complete data) (hr : Reads data S)
    (ht : encode t = some S.ticketSecret) : fileSize S t ≤ objectSize data := by
  have hperm := perm_fields hnodup hc
  have hlength : data.length = 10 := hperm.length_eq
  have hsum := (hperm.map entrySize).sum_eq
  have hfloat : ∀ {name x}, FloatRead data name x →
      entrySize (text name, .float x) ≤ entrySize (field data (text name)) := by
    rintro name x ⟨v, hv, hx, hw⟩
    exact entrySize_le hv (size_float_le hx hw)
  have hstring : ∀ {name k}, stringField data name = some k →
      get data (text name) = some (.str k) := by
    intro name k hk
    unfold stringField at hk
    split at hk
    · next hget => rw [hget, Option.some.inj hk]
    · simp at hk
  have hversion : get data (text "schema_version") = some (.int 1) := by
    have h := hr.schemaVersion
    unfold schemaVersionIsOne at h
    split at h
    · next hget => rw [hget, beq_iff_eq.mp h]
    · simp at h
  obtain ⟨u, hu, hencode⟩ := Option.bind_eq_some_iff.mp hr.ticketSecret
  obtain rfl := encode_inj ht hencode
  have hle : ((entries S t).map entrySize).sum ≤ ((fields.map (field data)).map entrySize).sum := by
    refine List.Forall₂.sum_le_sum ?_
    exact .cons (entrySize_le hversion le_rfl) (.cons (entrySize_le (hstring hr.nodeId) le_rfl)
      (.cons (entrySize_le (hstring hu) le_rfl) (.cons (entrySize_le hr.maxConnections.1 le_rfl)
      (.cons (entrySize_le hr.maxFrameBytes.1 le_rfl)
      (.cons (entrySize_le hr.maxBytesPerConnection.1 le_rfl) (.cons (hfloat hr.idleTimeout)
      (.cons (hfloat hr.maxConnectionSeconds) (.cons (hfloat hr.connectTimeout)
      (.cons (entrySize_le hr.ticketMaxTtl.1 le_rfl) .nil)))))))))
  have hten : (entries S t).length = 10 := rfl
  unfold fileSize objectSize
  omega

/-- A float field that is read is rounded. -/
theorem rounded_of_floatRead (h : ∀ f ∈ data, Rounded f.2) {name : String} {x : Binary64}
    (hx : FloatRead data name x) : ∃ q, x = ofRat q := by
  obtain ⟨v, hv, hx, -⟩ := hx
  cases v with
  | int n => exact ⟨n, (Option.some.inj hx).symm⟩
  | float y =>
    obtain rfl := Option.some.inj hx
    exact h _ (mem_of_get hv) y rfl
  | _ => simp [asFloat] at hx

/-- Each field of valid settings has a shortest text. -/
theorem exists_shortest (hv : Valid S) (hg : Genuine S) (ht : encode t = some S.ticketSecret)
    (depth : ℕ) : ∀ f ∈ entries S t, ∃ u w, Shortest hooks depth f.2 u w := by
  have hint : ∀ {name n}, integerOk name n = true → ∃ u w, Shortest hooks depth (.int n) u w := by
    intro name n h
    obtain ⟨m, rfl, hlength⟩ := numeral_of_integerOk h
    exact ⟨_, _, shortest_int depth hlength⟩
  have hfloat : ∀ {name x}, floatOk name x = true → (∃ q, x = ofRat q) →
      ∃ u w, Shortest hooks depth (.float x) u w := by
    intro name x h hx
    obtain ⟨q, rfl, hpos, -⟩ := finite_of_floatOk h
    obtain ⟨y, -, rfl⟩ := exists_float64 hx rfl hpos
    exact exists_shortest_float depth (spells_repr y) rfl
  have hnode : ∀ c ∈ S.nodeId, c < 0xD800 ∨ 0xE000 ≤ c ∧ c < 0x110000 := by
    intro c hc
    have h := hv.nodeId
    rw [matchesNodeId, Bool.and_eq_true] at h
    have := of_decide_eq_true (List.all_eq_true.mp h.2 c hc)
    omega
  simp only [entries, List.forall_mem_cons]
  exact ⟨⟨_, _, shortest_int depth (n := 1) (by decide)⟩, ⟨_, _, shortest_str depth hnode⟩,
    ⟨_, _, shortest_str depth (encode_eq_some.mp ht).1⟩, hint hv.maxConnections,
    hint hv.maxFrameBytes, hint hv.maxBytesPerConnection, hfloat hv.idleTimeout hg.idleTimeout,
    hfloat hv.maxConnectionSeconds hg.maxConnectionSeconds,
    hfloat hv.connectTimeout hg.connectTimeout, hint hv.ticketMaxTtl, by simp⟩

theorem exists_mem_of_forall₂ {α β : Type} {R : α → β → Prop} {l : List α} {m : List β}
    (h : List.Forall₂ R l m) : ∀ a ∈ l, ∃ b ∈ m, R a b := by
  induction h with
  | nil => simp
  | cons hab _ ih =>
    rw [List.forall_mem_cons]
    exact ⟨⟨_, List.mem_cons_self, hab⟩, fun a ha =>
      (ih a ha).imp fun b hb => ⟨List.mem_cons_of_mem _ hb.1, hb.2⟩⟩

/-- The fields of such a text are those of the settings. -/
theorem reads_of_same (hv : Valid S) (ht : encode t = some S.ticketSecret)
    (h : List.Forall₂ (fun f g => g.1 = f.1 ∧ SameNumber f.2 g.2) (entries S t) data) :
    (data.map Prod.fst).Nodup ∧ Complete data ∧ Reads data S := by
  have hkeys : data.map Prod.fst = fields := by
    have hsame : List.Forall₂ (· = ·) (data.map Prod.fst) ((entries S t).map Prod.fst) := by
      rw [List.forall₂_map_left_iff, List.forall₂_map_right_iff]
      exact h.flip.imp fun _ _ hfg => hfg.1
    exact List.forall₂_eq_eq_eq ▸ hsame
  have hnodup : (data.map Prod.fst).Nodup := hkeys ▸ nodup_fields
  have hget : ∀ f ∈ entries S t, ∃ w, get data f.1 = some w ∧ SameNumber f.2 w := by
    intro f hf
    obtain ⟨g, hg, hkey, hsame⟩ := exists_mem_of_forall₂ h f hf
    exact ⟨g.2, by rw [← hkey, get_of_mem hnodup hg], hsame⟩
  simp only [entries, List.forall_mem_cons] at hget
  obtain ⟨h₁, h₂, h₃, h₄, h₅, h₆, h₇, h₈, h₉, h₁₀, -⟩ := hget
  have hself : ∀ {key v}, (∀ x, v ≠ .float x) → (∃ w, get data key = some w ∧ SameNumber v w) →
      get data key = some v := by
    rintro key v hv ⟨w, hw, rfl | ⟨x, rfl, -⟩⟩
    · exact hw
    · exact absurd rfl (hv x)
  have hfloat : ∀ {name x}, floatOk name x = true →
      (∃ w, get data (text name) = some w ∧ SameNumber (.float x) w) → FloatRead data name x := by
    rintro name x hok ⟨w, hw, rfl | ⟨y, hy, hx⟩⟩
    · exact ⟨_, hw, rfl, within_of_floatOk rfl hok⟩
    · obtain rfl := Value.float.inj hy
      exact ⟨w, hw, hx, within_of_floatOk hx hok⟩
  have hnode : stringField data "node_id" = some S.nodeId := by
    rw [stringField, hself (by simp) h₂]
  have hsecret : stringField data "ticket_secret" = some t := by
    rw [stringField, hself (by simp) h₃]
  refine ⟨hnodup, ⟨fun key hkey => hkeys ▸ hkey, fun key hkey => hkeys.symm ▸ hkey⟩, ?_⟩
  exact {
    schemaVersion := by
      rw [schemaVersionIsOne, hself (by simp) h₁]
      rfl
    maxConnections := ⟨hself (by simp) h₄, hv.maxConnections⟩
    maxFrameBytes := ⟨hself (by simp) h₅, hv.maxFrameBytes⟩
    maxBytesPerConnection := ⟨hself (by simp) h₆, hv.maxBytesPerConnection⟩
    ticketMaxTtl := ⟨hself (by simp) h₁₀, hv.ticketMaxTtl⟩
    idleTimeout := hfloat hv.idleTimeout h₇
    maxConnectionSeconds := hfloat hv.maxConnectionSeconds h₈
    connectTimeout := hfloat hv.connectTimeout h₉
    ticketSecret := by rw [hsecret, Option.bind_some, ht]
    secretLength := hv.ticketSecret
    nodeId := hnode
    nodeMatches := hv.nodeId }

end

/-- **Where a file gives settings**: they are within all limits, and their secret is a text with which
they fit into one. -/
theorem obtainable_iff {depth : ℕ} {S : Settings} : Obtainable (depth + 1) S ↔
    Valid S ∧ Genuine S ∧ ∃ t, encode t = some S.ticketSecret ∧ fileSize S t ≤ maxConfigBytes := by
  constructor
  · rintro ⟨raw, -, hlength, h⟩
    obtain ⟨data, hparse, hread⟩ := bind_eq_ok.mp h
    obtain ⟨hc, hr⟩ := settingsFromMapping_eq_ok.mp hread
    obtain ⟨u, hu, hdecode⟩ := parseJson_eq_ok.mp hparse
    obtain ⟨hround, hsize, hhook⟩ := objectSize_le plain_hooks hdecode
    obtain ⟨t, -, ht⟩ := Option.bind_eq_some_iff.mp hr.ticketSecret
    have hfile := fileSize_le (hooks_object.mp hhook) hc hr ht
    have hbytes := bytes_decodeUtf8Sig hu
    exact ⟨hr.valid, ⟨rounded_of_floatRead hround hr.idleTimeout,
      rounded_of_floatRead hround hr.maxConnectionSeconds,
      rounded_of_floatRead hround hr.connectTimeout⟩, t, ht, by omega⟩
  · rintro ⟨hv, hg, t, ht, hsize⟩
    have hkeys : ∀ f ∈ entries S t, ∀ c ∈ f.1, c < 0xD800 ∨ 0xE000 ≤ c ∧ c < 0x110000 := by
      intro f hf c hc
      have hmem : f.1 ∈ fields := List.mem_map_of_mem (f := Prod.fst) hf
      have hascii : ∀ key ∈ fields, ∀ c ∈ key, c < 0x80 := by decide +kernel
      have := hascii _ hmem c hc
      omega
    obtain ⟨u, data, hdecode, hsame, hscalar, hbytes⟩ := exists_text depth (H := hooks)
      (List.cons_ne_nil _ _) hkeys (exists_shortest hv hg ht depth)
    obtain ⟨hnodup, hc, hr⟩ := reads_of_same hv ht hsame
    rw [hooks_object.mpr hnodup] at hdecode
    refine ⟨encodeUtf8 (123 :: u), fun b hb => lt_of_mem_encodeUtf8 (fun c hc => ?_) hb, ?_, ?_⟩
    · have := hscalar c hc
      omega
    · exact hbytes.trans hsize
    · have hparse := parseJson_eq_ok.mpr ⟨_, decodeUtf8Sig_encodeUtf8 (by decide) hscalar, hdecode⟩
      rw [settingsFromBytes, hparse]
      exact settingsFromMapping_eq_ok.mpr ⟨hc, hr⟩

/-! ## The two loaders agree -/

/-- **The loaders.** A file is read in an orderly way unless an integer stands in a float field that is
too large for a float and all fields checked before are as they should be. Settings come from a file
exactly if they come from the environment, except where their secret has a NUL, which no variable can
hold, or is too long for a file. -/
theorem loaders_iff (U : Lib.PythonInt.Unicode) (depth : ℕ) :
    (∀ raw, Orderly (depth + 1) raw ↔
      ¬ ∃ data, parseJson (depth + 1) raw = .ok data ∧ Overflows data) ∧
    ∀ S, (Obtainable (depth + 1) S ↔ Exported U S) ↔
      (Valid S → Genuine S → ∀ t, encode t = some S.ticketSecret →
        (0 ∈ t ↔ maxConfigBytes < fileSize S t)) := by
  refine ⟨fun raw => orderly_iff, fun S => ?_⟩
  rw [obtainable_iff, exported_iff]
  constructor
  · intro h hv hg t ht
    have hunique : ∀ {p : List ℕ → Prop}, (∃ u, encode u = some S.ticketSecret ∧ p u) ↔ p t :=
      ⟨fun ⟨u, hu, hp⟩ => encode_inj ht hu ▸ hp, fun hp => ⟨t, ht, hp⟩⟩
    simp only [hv, hg, hunique, true_and] at h
    rw [← not_iff_not, ← h, not_lt]
  · intro h
    by_cases hv : Valid S
    swap
    · simp [hv]
    by_cases hg : Genuine S
    swap
    · simp [hg]
    simp only [hv, hg, true_and]
    refine exists_congr fun t => and_congr_right fun ht => ?_
    rw [h hv hg t ht, not_lt]

/-! ## An integer that is too large -/

/-- The pairs of a file with this idle timeout. -/
def pairs (n : ℕ) : List (List ℕ × Value) :=
  [(text "schema_version", .int (1 : ℕ)), (text "node_id", .str (text "edge-1")),
    (text "ticket_secret", .str (List.replicate 32 97)), (text "max_connections", .int (64 : ℕ)),
    (text "max_frame_bytes", .int (64 : ℕ)), (text "max_bytes_per_connection", .int (64 : ℕ)),
    (text "idle_timeout", .int n), (text "max_connection_seconds", .int (60 : ℕ)),
    (text "connect_timeout", .int (10 : ℕ)), (text "ticket_max_ttl", .int (60 : ℕ))]

/-- The texts of these pairs. -/
def pairTexts (n : ℕ) : List (List ℕ × List ℕ) :=
  [(text "schema_version", decimal 1), (text "node_id", 34 :: (text "edge-1" ++ [34])),
    (text "ticket_secret", 34 :: (List.replicate 32 97 ++ [34])), (text "max_connections", decimal 64),
    (text "max_frame_bytes", decimal 64), (text "max_bytes_per_connection", decimal 64),
    (text "idle_timeout", decimal n), (text "max_connection_seconds", decimal 60),
    (text "connect_timeout", decimal 10), (text "ticket_max_ttl", decimal 60)]

/-- The file. -/
def overlong (n : ℕ) : List ℕ := 123 :: (entriesText (pairTexts n) ++ [125])

theorem quoted_plain {t : List ℕ} (h : ∀ c ∈ t, 32 ≤ c ∧ c < 0x80 ∧ c ≠ 34 ∧ c ≠ 92) :
    Quoted t t := by
  have hquoted : Quoted (t.flatMap fun c => [c]) t := quoted_flatMap
    (fun c hc => escapes_self (h c hc).1 (h c hc).2.2.1 (h c hc).2.2.2) fun c hc hhigh => by
      have := h c hc
      rw [isHigh_iff] at hhigh
      omega
  rwa [List.flatMap_singleton'] at hquoted

theorem stands_pairs {n : ℕ} (h : n < 10 ^ maxDigits) (depth : ℕ) :
    List.Forall₂ (Stands (Lib.JsonHooks.scanOnce hooks depth)) (pairTexts n) (pairs n) := by
  have hint : ∀ {key : List ℕ} {m : ℕ}, (∀ c ∈ key, 32 ≤ c ∧ c < 0x80 ∧ c ≠ 34 ∧ c ≠ 92) →
      m < 10 ^ maxDigits →
      Stands (Lib.JsonHooks.scanOnce hooks depth) (key, decimal m) (key, .int m) :=
    fun hkey hm => ⟨quoted_plain hkey, (spells_decimal (length_decimal_lt hm)).written depth⟩
  have hstr : ∀ {key t : List ℕ}, (∀ c ∈ key, 32 ≤ c ∧ c < 0x80 ∧ c ≠ 34 ∧ c ≠ 92) →
      (∀ c ∈ t, 32 ≤ c ∧ c < 0x80 ∧ c ≠ 34 ∧ c ≠ 92) →
      Stands (Lib.JsonHooks.scanOnce hooks depth) (key, 34 :: (t ++ [34])) (key, .str t) :=
    fun hkey ht => ⟨quoted_plain hkey, written_str depth (quoted_plain ht)⟩
  have hsmall : ∀ {m : ℕ}, m < 100 → m < 10 ^ maxDigits := fun hm =>
    hm.trans_le ((show 100 = 10 ^ 2 by rfl).trans_le (Nat.pow_le_pow_right (by decide) (by decide)))
  exact .cons (hint (by decide) (hsmall (by decide))) (.cons (hstr (by decide) (by decide))
    (.cons (hstr (by decide) (by decide)) (.cons (hint (by decide) (hsmall (by decide)))
    (.cons (hint (by decide) (hsmall (by decide))) (.cons (hint (by decide) (hsmall (by decide)))
    (.cons (hint (by decide) h) (.cons (hint (by decide) (hsmall (by decide)))
    (.cons (hint (by decide) (hsmall (by decide))) (.cons (hint (by decide) (hsmall (by decide)))
    .nil)))))))))

theorem overflows_pairs {n : ℕ} (h : 2 ^ 1024 ≤ n) : Overflows (pairs n) where
  complete := by
    have hkeys : (pairs n).map Prod.fst = fields := rfl
    exact ⟨fun key hkey => hkeys ▸ hkey, fun key hkey => hkeys.symm ▸ hkey⟩
  schemaVersion := rfl
  integers := by
    simp only [integerNames, List.forall_mem_cons]
    exact ⟨⟨64, rfl, by decide⟩, ⟨64, rfl, by decide⟩, ⟨64, rfl, by decide⟩, ⟨60, rfl, by decide⟩,
      by simp⟩
  floats := by
    refine floats_iff.mpr (.inl ⟨n, false, rfl, ?_⟩)
    rw [Int.cast_natCast]
    exact ofRat_large (by exact_mod_cast h)

theorem ascii_decimal (n : ℕ) : ∀ c ∈ decimal n, c < 0x80 := fun c hc => by
  have := isDigit_iff.mp (isDigit_decimal hc)
  omega

theorem ascii_entriesText : ∀ {es : List (List ℕ × List ℕ)},
    (∀ e ∈ es, (∀ c ∈ e.1, c < 0x80) ∧ ∀ c ∈ e.2, c < 0x80) → ∀ c ∈ entriesText es, c < 0x80
  | [], _ => by simp [entriesText]
  | e :: es, h => by
    obtain ⟨⟨hkey, hvalue⟩, hes⟩ := List.forall_mem_cons.mp h
    have ih := ascii_entriesText hes
    have hentry : ∀ c ∈ entryText e, c < 0x80 := by
      rw [entryText, List.forall_mem_cons, List.forall_mem_append, List.forall_mem_cons,
        List.forall_mem_cons]
      exact ⟨by decide, hkey, by decide, by decide, hvalue⟩
    rcases es with _ | ⟨f, es⟩
    · exact hentry
    · rw [entriesText, List.forall_mem_append, List.forall_mem_cons]
      exact ⟨hentry, by decide, ih⟩

theorem ascii_overlong (n : ℕ) : ∀ c ∈ overlong n, c < 0x80 := by
  have hentries : ∀ c ∈ entriesText (pairTexts n), c < 0x80 := by
    refine ascii_entriesText ?_
    simp only [pairTexts, List.forall_mem_cons (a := (_, _))]
    exact ⟨⟨by decide, ascii_decimal 1⟩, ⟨by decide, by decide⟩, ⟨by decide, by decide⟩,
      ⟨by decide, ascii_decimal 64⟩, ⟨by decide, ascii_decimal 64⟩, ⟨by decide, ascii_decimal 64⟩,
      ⟨by decide, ascii_decimal n⟩, ⟨by decide, ascii_decimal 60⟩, ⟨by decide, ascii_decimal 10⟩,
      ⟨by decide, ascii_decimal 60⟩, by simp⟩
  rw [overlong, List.forall_mem_cons, List.forall_mem_append]
  exact ⟨by decide, hentries, by simp⟩

theorem length_overlong_le {n : ℕ} (h : n < 10 ^ maxDigits) :
    (overlong n).length ≤ maxConfigBytes := by
  have hentries : bytes (entriesText (pairTexts n)) + 1 =
      ((pairTexts n).map fun e => 4 + bytes e.1 + bytes e.2).sum :=
    bytes_entriesText (List.cons_ne_nil _ _)
  have hlength := length_le_bytes (entriesText (pairTexts n))
  have hn : bytes (decimal n) ≤ 4300 := by
    rw [bytes_ascii (ascii_decimal n)]
    exact length_decimal_lt h
  have hall : ∀ b ∈ (pairTexts n).map fun e => 4 + bytes e.1 + bytes e.2, b ≤ 4400 := by
    simp only [pairTexts, List.map_cons, List.map_nil, List.forall_mem_cons]
    refine ⟨by decide, by decide, by decide, by decide, by decide, by decide, ?_, by decide, by decide,
      by decide, by simp⟩
    have : bytes (text "idle_timeout") = 12 := by decide
    omega
  have hsum := List.sum_le_card_nsmul _ _ hall
  have hten : ((pairTexts n).map fun e => 4 + bytes e.1 + bytes e.2).length = 10 := rfl
  rw [hten, show 10 • 4400 = 44000 by rfl] at hsum
  simp only [overlong, List.length_cons, List.length_append, List.length_nil, maxConfigBytes]
  omega

/-- **Every integer above the floats overflows**, up to the digits that the scanner takes. -/
theorem not_orderly_overlong {n : ℕ} (h : 2 ^ 1024 ≤ n) (h' : n < 10 ^ maxDigits) (depth : ℕ) :
    ¬ Orderly (depth + 1) (overlong n) := by
  have hnodup : ((pairs n).map Prod.fst).Nodup := nodup_fields
  have hascii := ascii_overlong n
  have hdecode := decode_entries (H := hooks) (stands_pairs h' depth) (List.cons_ne_nil _ _) [] rfl
  rw [hooks_object.mpr hnodup] at hdecode
  have htext := decodeUtf8Sig_encodeUtf8 (c := 123) (t := entriesText (pairTexts n) ++ [125])
    (by decide) fun d hd => .inl (by have := hascii d hd; omega)
  have hencode : encodeUtf8 (123 :: (entriesText (pairTexts n) ++ [125])) = _ :=
    encodeUtf8_ascii hascii
  rw [hencode] at htext
  rw [orderly_iff, not_not]
  exact ⟨pairs n, parseJson_eq_ok.mpr ⟨_, htext, hdecode⟩, overflows_pairs h⟩

theorem overlong_not_orderly : (∀ b ∈ overlong (10 ^ 400), b < 256) ∧
    (overlong (10 ^ 400)).length ≤ maxConfigBytes ∧ ¬ Orderly 1 (overlong (10 ^ 400)) := by
  have hdigits : 10 ^ 400 < 10 ^ maxDigits := Nat.pow_lt_pow_right (by decide) (by decide)
  have hlarge : 2 ^ 1024 ≤ 10 ^ 400 :=
    (Nat.pow_le_pow_right (by decide) (show 1024 ≤ 3 * 400 by decide)).trans
      ((pow_mul 2 3 400).trans_le (Nat.pow_le_pow_left (by decide) 400))
  refine ⟨fun b hb => ?_, length_overlong_le hdigits, not_orderly_overlong hlarge hdigits 0⟩
  have := ascii_overlong _ b hb
  omega

end IdenGrid.Edge.Loaders
