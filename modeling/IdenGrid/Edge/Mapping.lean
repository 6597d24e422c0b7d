import IdenGrid.Edge.Environment

/-! # What a mapping is read as

`settingsFromMapping_eq_ok`: `_settings_from_mapping` takes a mapping with all fields and no others,
and what it makes of one are settings within all limits (`Reads.valid`). `settingsFromMapping_error`:
it fails with a `RuntimeError`, or with the `OverflowError` of an integer that is too large for a float
in a field that is to be one (`Overflows`): `math.isfinite` converts it before its limits are checked. -/

namespace IdenGrid.Edge.Mapping

open IdenGrid.Lib.Double IdenGrid.Lib.Json IdenGrid.Lib.PythonFloat IdenGrid.Lib.Results
open IdenGrid.Lib.Unicode
open IdenGrid.Edge.Config IdenGrid.Edge.Environment

/-! ## One field -/

variable {data : List (List ℕ × Value)} {name : String}

/-- The field has this integer, which is within its limits. -/
def IntegerRead (data : List (List ℕ × Value)) (name : String) (n : ℤ) : Prop :=
  get data (text name) = some (.int n) ∧ integerOk name n = true

/-- The field has a number within its limits, and this float is its value. -/
def FloatRead (data : List (List ℕ × Value)) (name : String) (x : Binary64) : Prop :=
  ∃ v, get data (text name) = some v ∧ asFloat v = some x ∧
    within v (limit floatLimits (text name)) = true

/-- The field has an integer that no float can hold. -/
def TooLarge (data : List (List ℕ × Value)) (name : String) : Prop :=
  ∃ n negative, get data (text name) = some (.int n) ∧ ofRat n = .inf negative

theorem limit_le {limits : List (List ℕ × ℤ)} {bound : ℤ} (hbound : 0 ≤ bound)
    (h : ∀ l ∈ limits, l.2 ≤ bound) (name : List ℕ) : limit limits name ≤ bound := by
  unfold limit
  induction limits with
  | nil => exact hbound
  | cons l limits ih =>
    obtain ⟨key, n⟩ := l
    rw [List.lookup_cons]
    split
    · exact h _ List.mem_cons_self
    · exact ih fun k hk => h k (List.mem_cons_of_mem _ hk)

theorem limit_floatLimits_le (name : List ℕ) : limit floatLimits name ≤ 32400 :=
  limit_le (by decide) (by decide) name

/-- An integer within the limits of a float field is the value of its float. -/
theorem ofRat_of_within {n : ℤ} (h : within (.int n) (limit floatLimits (text name)) = true) :
    ofRat n = .finite n := by
  have hle := limit_floatLimits_le (text name)
  obtain ⟨hpos, hn⟩ := of_decide_eq_true h
  obtain ⟨m, rfl⟩ := Int.eq_ofNat_of_zero_le hpos.le
  have := ofRat_natCast (n := m) (by omega)
  exact_mod_cast this

theorem floatOk_of_within {v : Value} {x : Binary64} (hx : asFloat v = some x)
    (h : within v (limit floatLimits (text name)) = true) : floatOk name x = true := by
  cases v with
  | int n =>
    obtain rfl := Option.some.inj hx
    rw [ofRat_of_within h]
    simpa [floatOk, within] using h
  | float y =>
    obtain rfl := Option.some.inj hx
    exact h
  | _ => simp [asFloat] at hx

theorem integerField_eq_ok {n : ℤ} :
    integerField data name = .ok n ↔ IntegerRead data name n := by
  unfold integerField IntegerRead integerOk
  split
  · next m hm =>
    rw [hm]
    split_ifs with hrange
    · simp only [false_iff, not_and, Option.some.injEq, Value.int.injEq, decide_eq_true_eq]
      rintro rfl
      omega
    · simp only [Except.ok.injEq, Option.some.injEq, Value.int.injEq, decide_eq_true_eq]
      constructor
      · rintro rfl
        exact ⟨rfl, by omega⟩
      · exact fun h => h.1
  · next hother =>
    simp only [false_iff, not_and, reduceCtorEq]
    exact fun h => absurd h (hother n)

theorem integerField_error {f : Fault} (h : integerField data name = .error f) :
    f.isRuntimeError = true := by
  unfold integerField at h
  split at h
  · split_ifs at h
    obtain rfl := Except.error.inj h
    rfl
  · obtain rfl := Except.error.inj h
    rfl

theorem floatField_eq_ok {x : Binary64} :
    floatField data name = .ok x ↔ FloatRead data name x := by
  unfold floatField FloatRead
  rcases hget : get data (text name) with _ | v
  · simp
  simp only [Option.some.injEq, exists_eq_left']
  cases v with
  | int n =>
    rcases hof : ofRat (n : ℚ) with _ | negative | q
    · simp only [isNumber, isfinite, hof, asFloat, toFloat]
      by_cases hw : within (.int n) (limit floatLimits (text name)) = true
      · exact absurd (hof.symm.trans (ofRat_of_within hw)) (by simp)
      · simp [hw, bind, Except.bind]
    · simp only [isNumber, isfinite, hof, asFloat, toFloat]
      by_cases hw : within (.int n) (limit floatLimits (text name)) = true
      · exact absurd (hof.symm.trans (ofRat_of_within hw)) (by simp)
      · simp [hw, bind, Except.bind]
    · simp only [isNumber, isfinite, hof, asFloat, toFloat]
      by_cases hw : within (.int n) (limit floatLimits (text name)) = true
      · simp [hw, bind, Except.bind]
      · simp [hw, bind, Except.bind]
  | float y =>
    cases y with
    | finite q =>
      by_cases hw : within (.float (.finite q)) (limit floatLimits (text name)) = true
      · simp [isNumber, isfinite, asFloat, toFloat, hw, bind, Except.bind]
      · simp [isNumber, isfinite, asFloat, hw, bind, Except.bind]
    | _ => simp [isNumber, isfinite, asFloat, within, bind, Except.bind]
  | _ => simp [isNumber, asFloat]

/-- **How a float field fails**: with a `RuntimeError`, unless an integer in it is too large. -/
theorem floatField_error {f : Fault} (h : floatField data name = .error f) :
    f.isRuntimeError = true ∧ ¬ TooLarge data name ∨ f = .overflowError ∧ TooLarge data name := by
  unfold floatField at h
  rcases hget : get data (text name) with _ | v
  · rw [hget] at h
    obtain rfl := Except.error.inj h
    refine .inl ⟨rfl, ?_⟩
    rintro ⟨n, negative, hn, -⟩
    simp [hget] at hn
  rw [hget] at h
  dsimp only at h
  by_cases hlarge : TooLarge data name
  · obtain ⟨n, negative, hn, hof⟩ := id hlarge
    obtain rfl : v = .int n := Option.some.inj (hget.symm.trans hn)
    refine .inr ⟨?_, hlarge⟩
    simpa [isNumber, isfinite, hof, bind, Except.bind, eq_comm] using h
  · refine .inl ⟨?_, hlarge⟩
    by_cases hnumber : isNumber v = true
    · rw [if_neg (not_not.mpr hnumber)] at h
      rcases bind_eq_error.mp h with hfinite | ⟨finite, -, h⟩
      · -- only the conversion of an integer fails
        unfold isfinite at hfinite
        split at hfinite
        · next n =>
          split at hfinite
          · next negative hof => exact absurd ⟨n, negative, hget, hof⟩ hlarge
          · simp at hfinite
        · simp at hfinite
        · simp at hfinite
      · split_ifs at h
        obtain rfl := Except.error.inj h
        rfl
    · rw [if_pos hnumber] at h
      obtain rfl := Except.error.inj h
      rfl

theorem not_floatRead_of_tooLarge (h : TooLarge data name) (x : Binary64) : ¬ FloatRead data name x := by
  obtain ⟨n, negative, hn, hof⟩ := h
  rintro ⟨v, hv, -, hw⟩
  obtain rfl : v = .int n := Option.some.inj (hv.symm.trans hn)
  exact absurd (hof.symm.trans (ofRat_of_within hw)) (by simp)

/-! ## The whole mapping -/

/-- All fields are there, and no others. -/
structure Complete (data : List (List ℕ × Value)) : Prop where
  known : ∀ key ∈ data.map Prod.fst, key ∈ fields
  all : ∀ key ∈ fields, key ∈ data.map Prod.fst

/-- The values of the mapping are those of the settings. -/
structure Reads (data : List (List ℕ × Value)) (S : Settings) : Prop where
  schemaVersion : schemaVersionIsOne data = true
  maxConnections : IntegerRead data "max_connections" S.maxConnections
  maxFrameBytes : IntegerRead data "max_frame_bytes" S.maxFrameBytes
  maxBytesPerConnection : IntegerRead data "max_bytes_per_connection" S.maxBytesPerConnection
  ticketMaxTtl : IntegerRead data "ticket_max_ttl" S.ticketMaxTtl
  idleTimeout : FloatRead data "idle_timeout" S.idleTimeout
  maxConnectionSeconds : FloatRead data "max_connection_seconds" S.maxConnectionSeconds
  connectTimeout : FloatRead data "connect_timeout" S.connectTimeout
  ticketSecret : (stringField data "ticket_secret").bind encode = some S.ticketSecret
  secretLength : 32 ≤ S.ticketSecret.length
  nodeId : stringField data "node_id" = some S.nodeId
  nodeMatches : matchesNodeId S.nodeId = true

/-- **What is read is within all limits.** -/
theorem Reads.valid {S : Settings} (h : Reads data S) : Valid S where
  nodeId := h.nodeMatches
  ticketSecret := h.secretLength
  maxConnections := h.maxConnections.2
  maxFrameBytes := h.maxFrameBytes.2
  maxBytesPerConnection := h.maxBytesPerConnection.2
  ticketMaxTtl := h.ticketMaxTtl.2
  idleTimeout := by
    obtain ⟨v, -, hx, hw⟩ := h.idleTimeout
    exact floatOk_of_within hx hw
  maxConnectionSeconds := by
    obtain ⟨v, -, hx, hw⟩ := h.maxConnectionSeconds
    exact floatOk_of_within hx hw
  connectTimeout := by
    obtain ⟨v, -, hx, hw⟩ := h.connectTimeout
    exact floatOk_of_within hx hw

theorem least_eq_none {names : List (List ℕ)} : least names = none ↔ names = [] := by
  cases names <;> simp [least]

theorem complete_iff : Complete data ↔
    least ((data.map Prod.fst).filter (· ∉ fields)) = none ∧
      least (fields.filter (· ∉ data.map Prod.fst)) = none := by
  simp only [least_eq_none, List.filter_eq_nil_iff, decide_eq_true_eq, not_not]
  exact ⟨fun h => ⟨h.known, h.all⟩, fun h => ⟨h.1, h.2⟩⟩

/-- The fields one after the other, once all are there. -/
def readFields (data : List (List ℕ × Value)) : Except Fault Settings := do
  if ¬ schemaVersionIsOne data then throw (invalidField (text "schema_version"))
  let maxConnections ← integerField data "max_connections"
  let maxFrameBytes ← integerField data "max_frame_bytes"
  let maxBytesPerConnection ← integerField data "max_bytes_per_connection"
  let ticketMaxTtl ← integerField data "ticket_max_ttl"
  let idleTimeout ← floatField data "idle_timeout"
  let maxConnectionSeconds ← floatField data "max_connection_seconds"
  let connectTimeout ← floatField data "connect_timeout"
  match (stringField data "ticket_secret").bind encode with
  | none => .error (invalidField (text "ticket_secret"))
  | some secret =>
    validateIdentity (stringField data "node_id") secret false
    pure ⟨(stringField data "node_id").getD [], secret, maxConnections, maxFrameBytes,
      maxBytesPerConnection, idleTimeout, maxConnectionSeconds, connectTimeout, ticketMaxTtl⟩

theorem settingsFromMapping_complete (h : Complete data) :
    settingsFromMapping data = readFields data := by
  obtain ⟨hunknown, hmissing⟩ := complete_iff.mp h
  unfold settingsFromMapping
  simp only [hunknown, hmissing]
  rfl

theorem settingsFromMapping_incomplete (h : ¬ Complete data) :
    ∃ message, settingsFromMapping data = .error (.runtimeError message) := by
  unfold settingsFromMapping
  dsimp only
  split
  · exact ⟨_, rfl⟩
  · exact ⟨_, rfl⟩
  · next hunknown hmissing => exact absurd (complete_iff.mpr ⟨hunknown, hmissing⟩) h

theorem readFields_eq_ok {S : Settings} : readFields data = .ok S ↔ Reads data S := by
  constructor
  · intro h
    unfold readFields at h
    by_cases hversion : schemaVersionIsOne data = true
    swap
    · simp [hversion, throw, throwThe, MonadExceptOf.throw, bind, Except.bind] at h
    rw [if_neg (not_not.mpr hversion)] at h
    obtain ⟨a, ha, h⟩ := bind_eq_ok.mp h
    obtain ⟨b, hb, h⟩ := bind_eq_ok.mp h
    obtain ⟨c, hc, h⟩ := bind_eq_ok.mp h
    obtain ⟨d, hd, h⟩ := bind_eq_ok.mp h
    obtain ⟨x, hx, h⟩ := bind_eq_ok.mp h
    obtain ⟨y, hy, h⟩ := bind_eq_ok.mp h
    obtain ⟨z, hz, h⟩ := bind_eq_ok.mp h
    split at h
    · simp at h
    · next secret hsecret =>
      obtain ⟨⟨⟩, hidentity, h⟩ := bind_eq_ok.mp h
      obtain rfl := Except.ok.inj h
      rcases hnode : stringField data "node_id" with _ | node
      · simp [hnode, validateIdentity] at hidentity
      rw [hnode] at hidentity
      obtain ⟨hmatches, hlength⟩ := validateIdentity_eq_ok.mp hidentity
      exact ⟨hversion, integerField_eq_ok.mp ha, integerField_eq_ok.mp hb, integerField_eq_ok.mp hc,
        integerField_eq_ok.mp hd, floatField_eq_ok.mp hx, floatField_eq_ok.mp hy,
        floatField_eq_ok.mp hz, hsecret, hlength, hnode, hmatches⟩
  · intro h
    unfold readFields
    simp only [h.schemaVersion, integerField_eq_ok.mpr h.maxConnections,
      integerField_eq_ok.mpr h.maxFrameBytes, integerField_eq_ok.mpr h.maxBytesPerConnection,
      integerField_eq_ok.mpr h.ticketMaxTtl, floatField_eq_ok.mpr h.idleTimeout,
      floatField_eq_ok.mpr h.maxConnectionSeconds, floatField_eq_ok.mpr h.connectTimeout,
      h.ticketSecret, h.nodeId, validateIdentity_eq_ok.mpr ⟨h.nodeMatches, h.secretLength⟩]
    rfl

/-- **The mappings that are read.** -/
theorem settingsFromMapping_eq_ok {S : Settings} :
    settingsFromMapping data = .ok S ↔ Complete data ∧ Reads data S := by
  by_cases h : Complete data
  · rw [settingsFromMapping_complete h, readFields_eq_ok]
    exact (and_iff_right h).symm
  · obtain ⟨message, hm⟩ := settingsFromMapping_incomplete h
    rw [hm]
    simp [h]

/-! ## The errors -/

def integerNames : List String :=
  ["max_connections", "max_frame_bytes", "max_bytes_per_connection", "ticket_max_ttl"]

/-- In the order in which they are checked. -/
def floatNames : List String := ["idle_timeout", "max_connection_seconds", "connect_timeout"]

/-- **An integer that is too large stands in a float field**, and every field that is checked before
it is as it should be. -/
structure Overflows (data : List (List ℕ × Value)) : Prop where
  complete : Complete data
  schemaVersion : schemaVersionIsOne data = true
  integers : ∀ name ∈ integerNames, ∃ n, IntegerRead data name n
  floats : ∃ before name after, floatNames = before ++ name :: after ∧
    (∀ b ∈ before, ∃ x, FloatRead data b x) ∧ TooLarge data name

/-- The first float field that is not as it should be has an integer that is too large. -/
theorem floats_iff : (∃ before name after, floatNames = before ++ name :: after ∧
      (∀ b ∈ before, ∃ x, FloatRead data b x) ∧ TooLarge data name) ↔
    TooLarge data "idle_timeout" ∨ (∃ x, FloatRead data "idle_timeout" x) ∧
      (TooLarge data "max_connection_seconds" ∨ (∃ x, FloatRead data "max_connection_seconds" x) ∧
        TooLarge data "connect_timeout") := by
  constructor
  · rintro ⟨before, name, after, hsplit, hbefore, hlarge⟩
    rcases before with _ | ⟨a, _ | ⟨b, _ | ⟨c, before⟩⟩⟩
    · obtain ⟨rfl, -⟩ := List.cons.inj hsplit
      exact .inl hlarge
    · obtain ⟨rfl, htail⟩ := List.cons.inj hsplit
      obtain ⟨rfl, -⟩ := List.cons.inj htail
      exact .inr ⟨hbefore _ (by simp), .inl hlarge⟩
    · obtain ⟨rfl, htail⟩ := List.cons.inj hsplit
      obtain ⟨rfl, hlast⟩ := List.cons.inj htail
      obtain ⟨rfl, -⟩ := List.cons.inj hlast
      exact .inr ⟨hbefore _ (by simp), .inr ⟨hbefore _ (by simp), hlarge⟩⟩
    · have := congrArg List.length hsplit
      simp [floatNames] at this
  · rintro (h | ⟨hidle, h | ⟨hseconds, h⟩⟩)
    · exact ⟨[], _, _, rfl, by simp, h⟩
    · exact ⟨["idle_timeout"], _, _, rfl, by simpa using hidle, h⟩
    · exact ⟨["idle_timeout", "max_connection_seconds"], _, _, rfl, by simpa using ⟨hidle, hseconds⟩, h⟩

theorem integerRead_of_overflows (h : Overflows data) {f : Fault} {name : String}
    (hname : name ∈ integerNames) : integerField data name ≠ .error f := by
  obtain ⟨n, hn⟩ := h.integers name hname
  rw [integerField_eq_ok.mpr hn]
  exact fun h => by simp at h

theorem not_floatRead_of_error {f : Fault} (h : floatField data name = .error f) :
    ¬ ∃ x, FloatRead data name x := by
  rintro ⟨x, hx⟩
  rw [floatField_eq_ok.mpr hx] at h
  simp at h

/-- **How the fields fail.** -/
theorem readFields_error (hcomplete : Complete data) {f : Fault} (h : readFields data = .error f) :
    f.isRuntimeError = true ∧ ¬ Overflows data ∨ f = .overflowError ∧ Overflows data := by
  unfold readFields at h
  by_cases hversion : schemaVersionIsOne data = true
  swap
  · rw [if_pos hversion] at h
    obtain rfl := Except.error.inj h
    exact .inl ⟨rfl, fun ho => hversion ho.schemaVersion⟩
  rw [if_neg (not_not.mpr hversion)] at h
  rcases bind_eq_error.mp h with h | ⟨a, ha, h⟩
  · exact .inl ⟨integerField_error h, fun ho => integerRead_of_overflows ho (by decide) h⟩
  rcases bind_eq_error.mp h with h | ⟨b, hb, h⟩
  · exact .inl ⟨integerField_error h, fun ho => integerRead_of_overflows ho (by decide) h⟩
  rcases bind_eq_error.mp h with h | ⟨c, hc, h⟩
  · exact .inl ⟨integerField_error h, fun ho => integerRead_of_overflows ho (by decide) h⟩
  rcases bind_eq_error.mp h with h | ⟨d, hd, h⟩
  · exact .inl ⟨integerField_error h, fun ho => integerRead_of_overflows ho (by decide) h⟩
  -- from here on only the float fields decide whether an integer is too large
  have hoverflows : Overflows data ↔ _ := ⟨fun ho => floats_iff.mp ho.floats, fun hfloats =>
    ⟨hcomplete, hversion, by
      simp only [integerNames, List.forall_mem_cons]
      exact ⟨⟨a, integerField_eq_ok.mp ha⟩, ⟨b, integerField_eq_ok.mp hb⟩,
        ⟨c, integerField_eq_ok.mp hc⟩, ⟨d, integerField_eq_ok.mp hd⟩, by simp⟩,
      floats_iff.mpr hfloats⟩⟩
  rw [hoverflows]
  rcases bind_eq_error.mp h with h | ⟨x, hx, h⟩
  · have hnone := not_floatRead_of_error h
    rcases floatField_error h with ⟨hf, hlarge⟩ | ⟨hf, hlarge⟩
    · exact .inl ⟨hf, fun ho => ho.elim hlarge fun ho => hnone ho.1⟩
    · exact .inr ⟨hf, .inl hlarge⟩
  have hx := floatField_eq_ok.mp hx
  have hxlarge : ¬ TooLarge data "idle_timeout" := fun hl => not_floatRead_of_tooLarge hl x hx
  rcases bind_eq_error.mp h with h | ⟨y, hy, h⟩
  · have hnone := not_floatRead_of_error h
    rcases floatField_error h with ⟨hf, hlarge⟩ | ⟨hf, hlarge⟩
    · exact .inl ⟨hf, fun ho => ho.elim hxlarge fun ho => ho.2.elim hlarge fun ho => hnone ho.1⟩
    · exact .inr ⟨hf, .inr ⟨⟨x, hx⟩, .inl hlarge⟩⟩
  have hy := floatField_eq_ok.mp hy
  have hylarge : ¬ TooLarge data "max_connection_seconds" :=
    fun hl => not_floatRead_of_tooLarge hl y hy
  rcases bind_eq_error.mp h with h | ⟨z, hz, h⟩
  · rcases floatField_error h with ⟨hf, hlarge⟩ | ⟨hf, hlarge⟩
    · exact .inl ⟨hf, fun ho => ho.elim hxlarge fun ho => ho.2.elim hylarge fun ho => hlarge ho.2⟩
    · exact .inr ⟨hf, .inr ⟨⟨x, hx⟩, .inr ⟨⟨y, hy⟩, hlarge⟩⟩⟩
  have hzlarge : ¬ TooLarge data "connect_timeout" :=
    fun hl => not_floatRead_of_tooLarge hl z (floatField_eq_ok.mp hz)
  refine .inl ⟨?_, fun ho => ho.elim hxlarge fun ho => ho.2.elim hylarge fun ho => hzlarge ho.2⟩
  split at h
  · obtain rfl := Except.error.inj h
    rfl
  · rcases bind_eq_error.mp h with h | ⟨_, -, h⟩
    · unfold validateIdentity at h
      split_ifs at h <;> obtain rfl := Except.error.inj h <;> rfl
    · simp [pure, Except.pure] at h

/-- **How a mapping is refused.** -/
theorem settingsFromMapping_error {f : Fault} (h : settingsFromMapping data = .error f) :
    f.isRuntimeError = true ∧ ¬ Overflows data ∨ f = .overflowError ∧ Overflows data := by
  by_cases hcomplete : Complete data
  · rw [settingsFromMapping_complete hcomplete] at h
    exact readFields_error hcomplete h
  · obtain ⟨message, hm⟩ := settingsFromMapping_incomplete hcomplete
    obtain rfl := Except.error.inj (hm.symm.trans h)
    exact .inl ⟨rfl, fun ho => hcomplete ho.complete⟩

end IdenGrid.Edge.Mapping
