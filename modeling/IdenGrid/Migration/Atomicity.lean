import IdenGrid.Migration.Copy

/-! # The migration is atomic up to its commit

`atomic_iff`: into an empty destination, `migrate_engines` either returns, and every table holds the
rows of the source, or raises and leaves no row, exactly if whatever comes after the commit of the
inserts goes through too, unless nothing is copied: the checks after the commit raise, but do not take
the rows back. -/

namespace IdenGrid.Migration.Atomicity

open IdenGrid.Lib.Sql IdenGrid.Lib.Results IdenGrid.Migration.Statements IdenGrid.Migration.Values
open IdenGrid.Migration.Uniqueness
open IdenGrid.Migration.Copy

/-- No table has a row. -/
def empty : Content := fun _ => []

section Statement

variable (sha256 : List ℕ → List ℕ) (E : Engines) (metadata : List Table)

/-- The rows of a table as they are inserted. -/
def rowsOf (table : Table) : List (Row String Value) :=
  (E.sourceRows table.name).map (select (copyColumns E table))

/-- What the destination holds after the inserts. -/
def copied (content : Content) : Content :=
  metadata.foldl (fun content table =>
    if rowsOf E table = [] then content
    else put content table.name ((E.insert table.name (rowsOf E table)).getD [])) content

/-- Nothing is left if it raises, and if it returns every table holds the source's rows. -/
def Atomic (resetEmptyDestination prepareTarget : Bool) : Prop :=
  (∀ e, (migrateEngines sha256 E metadata resetEmptyDestination false prepareTarget empty).1 =
      .error e → ∀ table ∈ metadata,
    (migrateEngines sha256 E metadata resetEmptyDestination false prepareTarget empty).2
      table.name = []) ∧
  ∀ r, (migrateEngines sha256 E metadata resetEmptyDestination false prepareTarget empty).1 =
      .ok r → ∀ table ∈ metadata,
    List.Forall₂ (SameRow (copyColumns E table)) (E.sourceRows table.name)
      ((migrateEngines sha256 E metadata resetEmptyDestination false prepareTarget empty).2
        table.name)

/-- The inserts are committed: no operation up to the commit raises, no table is missing, the rows of
the source have fingerprints, and the destination takes them. -/
structure Commits (resetEmptyDestination prepareTarget : Bool) : Prop where
  sourceTables : E.raises .sourceTables = false
  missing : missing E metadata = []
  destinationTables : E.raises .destinationTables = false
  reflect : E.raises .reflect = false
  readSource : ∀ table ∈ metadata, E.raises (.readSource table.name) = false ∧
    (fingerprint sha256 (copyColumns E table) (E.sourceRows table.name)).isSome = true
  dropAll : resetEmptyDestination = true → E.raises .dropAll = false
  createAll : E.raises .createAll = false
  prepareTarget : prepareTarget = true → E.raises .prepareTarget = false
  insert : ∀ table ∈ metadata, E.raises (.readAgain table.name) = false ∧
    (rowsOf E table ≠ [] → (E.insert table.name (rowsOf E table)).isSome = true)
  commit : E.raises .commit = false

/-- The rest goes through: no operation raises, and the destination passes all checks. -/
structure Verifies (content : Content) : Prop where
  autoIncrement : E.dialectName = "mysql" → ∀ table ∈ metadata, table.integerPk.isSome = true →
    E.raises (.autoIncrement table.name) = false
  generated : E.raises .generated = false ∧
    ∀ check ∈ mysqlGeneratedConstraintChecks E.dialectName E.schema, check.2 = true
  orphans : E.raises .orphans = false ∧ ∀ check ∈ foreignKeyOrphans metadata content, check.2 = 0
  uniqueness : E.raises .uniqueness = false ∧
    ∀ check ∈ activeUniquenessChecks (metadata.map Table.name) content, check.2 = 0
  tables : ∀ table ∈ metadata, E.raises (.readTarget table.name) = false ∧
    (E.sourceRows table.name).length = (content table.name).length ∧
    ∃ digest, fingerprint sha256 (copyColumns E table) (E.sourceRows table.name) = some digest ∧
      fingerprint sha256 (copyColumns E table) (content table.name) = some digest

end Statement

variable {sha256 : List ℕ → List ℕ} {E : Engines} {metadata : List Table}
  {resetEmptyDestination prepareTarget : Bool}

/-! ## When each phase goes through -/

theorem attempt_eq_ok {operation : Operation} {u : Unit} :
    attempt E operation = .ok u ↔ E.raises operation = false := by
  unfold attempt
  split_ifs with h
  · simp [h]
  · simp [h]

theorem attemptIf_eq_ok {wanted : Bool} {operation : Operation} {u : Unit} :
    attemptIf E wanted operation = .ok u ↔ (wanted = true → E.raises operation = false) := by
  unfold attemptIf
  split_ifs with h
  · rw [attempt_eq_ok]
    exact ⟨fun hr _ => hr, fun hr => hr h⟩
  · simp [h]

theorem refuse_eq_ok {reason : Prop} [Decidable reason] {message : String} {u : Unit} :
    refuse reason message = .ok u ↔ ¬ reason := by
  unfold refuse
  split_ifs with h
  · simp [h]
  · simp [h]

/-- The entry of a table in the `source_report`. -/
def entryOf (sha256 : List ℕ → List ℕ) (E : Engines) (table : Table) : SourceEntry :=
  ⟨(E.sourceRows table.name).length,
    (fingerprint sha256 (copyColumns E table) (E.sourceRows table.name)).getD []⟩

theorem takeFingerprint_eq_ok {columns : List String} {rows : List (Row String Value)}
    {digest : List ℕ} : takeFingerprint sha256 columns rows = .ok digest ↔
      fingerprint sha256 columns rows = some digest := by
  unfold takeFingerprint
  rcases fingerprint sha256 columns rows with _ | d
  · simp
  · simp

theorem sourceReport_eq_ok : ∀ {metadata : List Table} {report : List SourceEntry},
    sourceReport sha256 E metadata = .ok report ↔
      (∀ table ∈ metadata, E.raises (.readSource table.name) = false ∧
        (fingerprint sha256 (copyColumns E table) (E.sourceRows table.name)).isSome = true) ∧
      report = metadata.map (entryOf sha256 E)
  | [], report => by
    rw [sourceReport, List.map_nil, Except.ok.injEq]
    exact ⟨fun h => ⟨by simp, h.symm⟩, fun h => h.2.symm⟩
  | table :: tables, report => by
    rw [sourceReport, List.forall_mem_cons]
    constructor
    · intro h
      obtain ⟨_, hraises, h⟩ := bind_eq_ok.mp h
      obtain ⟨digest, hdigest, h⟩ := bind_eq_ok.mp h
      obtain ⟨entries, hentries, h⟩ := bind_eq_ok.mp h
      obtain ⟨hall, rfl⟩ := sourceReport_eq_ok.mp hentries
      rw [takeFingerprint_eq_ok] at hdigest
      refine ⟨⟨⟨attempt_eq_ok.mp hraises, by rw [hdigest]; rfl⟩, hall⟩, ?_⟩
      rw [List.map_cons, entryOf, hdigest]
      exact (Except.ok.inj h).symm
    · rintro ⟨⟨⟨hraises, hsome⟩, hall⟩, rfl⟩
      obtain ⟨digest, hdigest⟩ := Option.isSome_iff_exists.mp hsome
      refine bind_eq_ok.mpr ⟨(), attempt_eq_ok.mpr hraises, bind_eq_ok.mpr ⟨digest,
        takeFingerprint_eq_ok.mpr hdigest, bind_eq_ok.mpr ⟨_, sourceReport_eq_ok.mpr ⟨hall, rfl⟩, ?_⟩⟩⟩
      rw [List.map_cons, entryOf, hdigest]
      rfl

theorem insertAll_eq_ok : ∀ {metadata : List Table} {content content' : Content},
    insertAll E metadata content = .ok content' ↔
      (∀ table ∈ metadata, E.raises (.readAgain table.name) = false ∧
        (rowsOf E table ≠ [] → (E.insert table.name (rowsOf E table)).isSome = true)) ∧
      content' = copied E metadata content
  | [], content, content' => by
    rw [insertAll, copied, List.foldl_nil, Except.ok.injEq]
    exact ⟨fun h => ⟨by simp, h.symm⟩, fun h => h.2.symm⟩
  | table :: tables, content, content' => by
    rw [insertAll, List.forall_mem_cons, copied, List.foldl_cons]
    constructor
    · intro h
      obtain ⟨_, hraises, h⟩ := bind_eq_ok.mp h
      have hok := attempt_eq_ok.mp hraises
      by_cases hrows : rowsOf E table = []
      · rw [if_pos hrows]
        simp only [show (E.sourceRows table.name).map (select (copyColumns E table)) = [] from hrows,
          if_true] at h
        obtain ⟨hall, rfl⟩ := insertAll_eq_ok.mp h
        exact ⟨⟨⟨hok, fun hne => absurd hrows hne⟩, hall⟩, rfl⟩
      · rw [if_neg hrows]
        simp only [if_neg (show (E.sourceRows table.name).map (select (copyColumns E table)) ≠ []
          from hrows)] at h
        rcases hinsert : E.insert table.name (rowsOf E table) with _ | stored
        · rw [rowsOf] at hinsert
          simp [hinsert] at h
        · rw [rowsOf] at hinsert
          simp only [hinsert] at h
          obtain ⟨hall, rfl⟩ := insertAll_eq_ok.mp h
          refine ⟨⟨⟨hok, fun _ => rfl⟩, hall⟩, rfl⟩
    · rintro ⟨⟨⟨hok, hinsert⟩, hall⟩, rfl⟩
      refine bind_eq_ok.mpr ⟨(), attempt_eq_ok.mpr hok, ?_⟩
      by_cases hrows : rowsOf E table = []
      · rw [if_pos hrows]
        simp only [show (E.sourceRows table.name).map (select (copyColumns E table)) = [] from hrows,
          if_true]
        exact insertAll_eq_ok.mpr ⟨hall, rfl⟩
      · rw [if_neg hrows]
        obtain ⟨stored, hstored⟩ := Option.isSome_iff_exists.mp (hinsert hrows)
        rw [hstored, Option.getD_some]
        rw [rowsOf] at hstored
        simp only [if_neg (show (E.sourceRows table.name).map (select (copyColumns E table)) ≠ []
          from hrows), hstored]
        exact insertAll_eq_ok.mpr ⟨hall, rfl⟩

theorem destinationNonempty_empty : destinationNonempty E empty = [] := by
  have hnone : (E.destinationTables.filter fun table => empty table ≠ []) = [] :=
    List.filter_eq_nil_iff.mpr fun table _ => by simp [empty]
  rw [destinationNonempty, hnone, List.insertionSort_nil]

/-- `drop_all` of nothing. -/
theorem foldl_put_empty (names : List String) :
    names.foldl (fun content table => put content table []) empty = empty := by
  induction names with
  | nil => rfl
  | cons name names ih =>
    have hput : put empty name [] = empty := by
      funext table
      unfold put
      split_ifs
      · rfl
      · rfl
    rw [List.foldl_cons, hput, ih]

theorem inspectSource_eq_ok {report : List SourceEntry} :
    inspectSource sha256 E metadata resetEmptyDestination empty = .ok report ↔
      E.raises .sourceTables = false ∧ missing E metadata = [] ∧
      E.raises .destinationTables = false ∧ E.raises .reflect = false ∧
      (∀ table ∈ metadata, E.raises (.readSource table.name) = false ∧
        (fingerprint sha256 (copyColumns E table) (E.sourceRows table.name)).isSome = true) ∧
      report = metadata.map (entryOf sha256 E) := by
  have hnonempty : ¬ (destinationNonempty E empty ≠ [] ∧ resetEmptyDestination = false) := fun h =>
    h.1 destinationNonempty_empty
  unfold inspectSource
  constructor
  · intro h
    obtain ⟨_, h1, h⟩ := bind_eq_ok.mp h
    obtain ⟨_, h2, h⟩ := bind_eq_ok.mp h
    obtain ⟨_, h3, h⟩ := bind_eq_ok.mp h
    obtain ⟨_, -, h⟩ := bind_eq_ok.mp h
    obtain ⟨_, h4, h⟩ := bind_eq_ok.mp h
    exact ⟨attempt_eq_ok.mp h1, not_not.mp (refuse_eq_ok.mp h2), attempt_eq_ok.mp h3,
      attempt_eq_ok.mp h4, sourceReport_eq_ok.mp h⟩
  · rintro ⟨h1, h2, h3, h4, h5⟩
    exact bind_eq_ok.mpr ⟨(), attempt_eq_ok.mpr h1, bind_eq_ok.mpr ⟨(), refuse_eq_ok.mpr
      (not_not.mpr h2), bind_eq_ok.mpr ⟨(), attempt_eq_ok.mpr h3, bind_eq_ok.mpr ⟨(),
      refuse_eq_ok.mpr hnonempty, bind_eq_ok.mpr ⟨(), attempt_eq_ok.mpr h4,
      sourceReport_eq_ok.mpr h5⟩⟩⟩⟩⟩

theorem prepareSchema_eq_ok {u : Unit} :
    prepareSchema E resetEmptyDestination prepareTarget = .ok u ↔
      (resetEmptyDestination = true → E.raises .dropAll = false) ∧ E.raises .createAll = false ∧
      (prepareTarget = true → E.raises .prepareTarget = false) := by
  unfold prepareSchema
  constructor
  · intro h
    obtain ⟨_, h1, h⟩ := bind_eq_ok.mp h
    obtain ⟨_, h2, h⟩ := bind_eq_ok.mp h
    exact ⟨attemptIf_eq_ok.mp h1, attempt_eq_ok.mp h2, attemptIf_eq_ok.mp h⟩
  · rintro ⟨h1, h2, h3⟩
    exact bind_eq_ok.mpr ⟨(), attemptIf_eq_ok.mpr h1, bind_eq_ok.mpr ⟨(), attempt_eq_ok.mpr h2,
      attemptIf_eq_ok.mpr h3⟩⟩

theorem transaction_eq_ok {content content' : Content} :
    transaction E metadata content = .ok content' ↔
      (∀ table ∈ metadata, E.raises (.readAgain table.name) = false ∧
        (rowsOf E table ≠ [] → (E.insert table.name (rowsOf E table)).isSome = true)) ∧
      E.raises .commit = false ∧ content' = copied E metadata content := by
  unfold transaction
  constructor
  · intro h
    obtain ⟨inserted, h1, h⟩ := bind_eq_ok.mp h
    obtain ⟨_, h2, h⟩ := bind_eq_ok.mp h
    obtain rfl := Except.ok.inj h
    obtain ⟨hall, rfl⟩ := insertAll_eq_ok.mp h1
    exact ⟨hall, attempt_eq_ok.mp h2, rfl⟩
  · rintro ⟨hall, hcommit, rfl⟩
    exact bind_eq_ok.mpr ⟨_, insertAll_eq_ok.mpr ⟨hall, rfl⟩, bind_eq_ok.mpr ⟨(),
      attempt_eq_ok.mpr hcommit, rfl⟩⟩

/-! ## The checks after the commit -/

theorem resetTables_ok (content : Content) : ∀ {metadata : List Table},
    (∃ values, resetTables E content metadata = .ok values) ↔
      ∀ table ∈ metadata, table.integerPk.isSome = true → E.raises (.autoIncrement table.name) = false
  | [] => ⟨fun _ => by simp, fun _ => ⟨[], rfl⟩⟩
  | table :: tables => by
    have ih : (∃ values, resetTables E content tables = .ok values) ↔ _ := resetTables_ok content
    rw [resetTables, List.forall_mem_cons, ← ih]
    rcases table.integerPk with _ | column
    · simp
    · constructor
      · rintro ⟨values, h⟩
        obtain ⟨_, h1, h⟩ := bind_eq_ok.mp h
        obtain ⟨values', h2, -⟩ := bind_eq_ok.mp h
        exact ⟨fun _ => attempt_eq_ok.mp h1, values', h2⟩
      · rintro ⟨h1, values, h2⟩
        exact ⟨_, bind_eq_ok.mpr ⟨(), attempt_eq_ok.mpr (h1 rfl), bind_eq_ok.mpr ⟨values, h2, rfl⟩⟩⟩

theorem resetMysqlAutoIncrement_ok {content : Content} :
    (∃ values, resetMysqlAutoIncrement E metadata content = .ok values) ↔
      (E.dialectName = "mysql" → ∀ table ∈ metadata, table.integerPk.isSome = true →
        E.raises (.autoIncrement table.name) = false) := by
  unfold resetMysqlAutoIncrement
  split_ifs with h
  · exact iff_of_true ⟨[], rfl⟩ fun hmysql => absurd hmysql h
  · rw [resetTables_ok, not_not] at *
    exact ⟨fun hall _ => hall, fun hall => hall h⟩

theorem compareTables_ok (content : Content) : ∀ {metadata : List Table},
    (∃ entries, compareTables sha256 E content
        (metadata.map fun table => (table, entryOf sha256 E table)) = .ok entries) ↔
      ∀ table ∈ metadata, E.raises (.readTarget table.name) = false ∧
        (E.sourceRows table.name).length = (content table.name).length ∧
        fingerprint sha256 (copyColumns E table) (content table.name) =
          some (entryOf sha256 E table).sha256
  | [] => ⟨fun _ => by simp, fun _ => ⟨[], rfl⟩⟩
  | table :: tables => by
    have ih : (∃ entries, compareTables sha256 E content
        (tables.map fun table => (table, entryOf sha256 E table)) = .ok entries) ↔ _ :=
      compareTables_ok content
    rw [List.map_cons, compareTables, List.forall_mem_cons, ← ih]
    constructor
    · rintro ⟨entries, h⟩
      obtain ⟨_, h1, h⟩ := bind_eq_ok.mp h
      obtain ⟨digest, h2, h⟩ := bind_eq_ok.mp h
      obtain ⟨_, h3, h⟩ := bind_eq_ok.mp h
      obtain ⟨entries', h4, -⟩ := bind_eq_ok.mp h
      have hsame := refuse_eq_ok.mp h3
      rw [not_or, not_not, not_not] at hsame
      refine ⟨⟨attempt_eq_ok.mp h1, hsame.1, ?_⟩, entries', h4⟩
      rw [takeFingerprint_eq_ok.mp h2, hsame.2]
    · rintro ⟨⟨h1, h2, h3⟩, entries, h4⟩
      refine ⟨_, bind_eq_ok.mpr ⟨(), attempt_eq_ok.mpr h1, bind_eq_ok.mpr ⟨_,
        takeFingerprint_eq_ok.mpr h3, bind_eq_ok.mpr ⟨(), refuse_eq_ok.mpr ?_,
        bind_eq_ok.mpr ⟨entries, h4, rfl⟩⟩⟩⟩⟩
      rw [not_or, not_not, not_not]
      exact ⟨h2, rfl⟩

theorem none_false {checks : List (String × Bool)} :
    (¬ ∃ check ∈ checks, check.2 = false) ↔ ∀ check ∈ checks, check.2 = true := by
  simp only [not_exists, not_and, Bool.not_eq_false]

theorem none_ne {checks : List (String × ℕ)} :
    (¬ ∃ check ∈ checks, check.2 ≠ 0) ↔ ∀ check ∈ checks, check.2 = 0 := by
  simp only [not_exists, not_and, ne_eq, not_not]

/-- **When the checks go through.** -/
theorem verify_ok {content : Content} (hfingerprints : ∀ table ∈ metadata,
      (fingerprint sha256 (copyColumns E table) (E.sourceRows table.name)).isSome = true) :
    (∃ report, verify sha256 E metadata (metadata.map (entryOf sha256 E)) content = .ok report) ↔
      Verifies sha256 E metadata content := by
  have hzip : metadata.zip (metadata.map (entryOf sha256 E)) =
      metadata.map fun table => (table, entryOf sha256 E table) := by
    simpa using List.zip_map' (f := id) (g := entryOf sha256 E) (l := metadata)
  have htables : (∃ entries, compareTables sha256 E content
      (metadata.zip (metadata.map (entryOf sha256 E))) = .ok entries) ↔
      ∀ table ∈ metadata, E.raises (.readTarget table.name) = false ∧
        (E.sourceRows table.name).length = (content table.name).length ∧
        ∃ digest, fingerprint sha256 (copyColumns E table) (E.sourceRows table.name) =
          some digest ∧ fingerprint sha256 (copyColumns E table) (content table.name) =
          some digest := by
    rw [hzip, compareTables_ok]
    refine forall₂_congr fun table htable => ?_
    obtain ⟨digest, hdigest⟩ := Option.isSome_iff_exists.mp (hfingerprints table htable)
    simp [entryOf, hdigest]
  unfold verify
  constructor
  · rintro ⟨report, h⟩
    obtain ⟨_, h1, h⟩ := bind_eq_ok.mp h
    obtain ⟨_, h2, h⟩ := bind_eq_ok.mp h
    obtain ⟨_, h3, h⟩ := bind_eq_ok.mp h
    obtain ⟨_, h4, h⟩ := bind_eq_ok.mp h
    obtain ⟨_, h5, h⟩ := bind_eq_ok.mp h
    obtain ⟨entries, h6, h⟩ := bind_eq_ok.mp h
    obtain ⟨_, h7, h⟩ := bind_eq_ok.mp h
    obtain ⟨_, h8, -⟩ := bind_eq_ok.mp h
    exact ⟨resetMysqlAutoIncrement_ok.mp ⟨_, h1⟩,
      ⟨attempt_eq_ok.mp h2, none_false.mp (refuse_eq_ok.mp h3)⟩,
      ⟨attempt_eq_ok.mp h4, none_ne.mp (refuse_eq_ok.mp h7)⟩,
      ⟨attempt_eq_ok.mp h5, none_ne.mp (refuse_eq_ok.mp h8)⟩,
      htables.mp ⟨entries, h6⟩⟩
  · intro h
    obtain ⟨values, h1⟩ := resetMysqlAutoIncrement_ok.mpr h.autoIncrement
    obtain ⟨entries, h6⟩ := htables.mpr h.tables
    exact ⟨_, bind_eq_ok.mpr ⟨values, h1, bind_eq_ok.mpr ⟨(), attempt_eq_ok.mpr h.generated.1,
      bind_eq_ok.mpr ⟨(), refuse_eq_ok.mpr (none_false.mpr h.generated.2),
      bind_eq_ok.mpr ⟨(), attempt_eq_ok.mpr h.orphans.1, bind_eq_ok.mpr ⟨(),
      attempt_eq_ok.mpr h.uniqueness.1, bind_eq_ok.mpr ⟨entries, h6, bind_eq_ok.mpr ⟨(),
      refuse_eq_ok.mpr (none_ne.mpr h.orphans.2), bind_eq_ok.mpr ⟨(),
      refuse_eq_ok.mpr (none_ne.mpr h.uniqueness.2), rfl⟩⟩⟩⟩⟩⟩⟩⟩⟩

/-! ## The whole migration -/

/-- **A table is empty after the copy exactly if it was before and in the source.** -/
theorem copied_eq_nil (name : String) : ∀ {metadata : List Table} {content : Content},
    (∀ table ∈ metadata, rowsOf E table ≠ [] →
      (E.insert table.name (rowsOf E table)).isSome = true) →
    (copied E metadata content name = [] ↔
      content name = [] ∧ ∀ table ∈ metadata, table.name = name → E.sourceRows table.name = [])
  | [], content, _ => by simp [copied]
  | table :: tables, content, h => by
    rw [List.forall_mem_cons] at h
    have hrows : rowsOf E table = [] ↔ E.sourceRows table.name = [] := List.map_eq_nil_iff
    rw [copied, List.foldl_cons, List.forall_mem_cons, ← copied]
    by_cases hempty : rowsOf E table = []
    · rw [if_pos hempty, copied_eq_nil name h.2, and_iff_right fun _ => hrows.mp hempty]
    · obtain ⟨stored, hstored⟩ := Option.isSome_iff_exists.mp (h.1 hempty)
      have hne : stored ≠ [] := by
        intro hnil
        have hlength := E.insert_length _ _ _ hstored
        rw [hnil, List.length_nil] at hlength
        exact hempty (List.length_eq_zero_iff.mp hlength.symm)
      rw [if_neg hempty, hstored, Option.getD_some, copied_eq_nil name h.2]
      by_cases hname : table.name = name
      · refine iff_of_false (fun hno => hne ?_) fun hno => hempty (hrows.mpr (hno.2.1 hname))
        simpa [put, hname] using hno.1
      · have hput : put content table.name stored name = content name :=
          if_neg fun heq => hname heq.symm
        rw [hput, and_iff_right fun heq => absurd heq hname]

/-- The destination before the schema is prepared. -/
theorem emptied_eq : (if resetEmptyDestination = true ∧ E.raises .dropAll = false then
    (metadata.map Table.name).foldl (fun content table => put content table []) empty
    else empty) = empty := by
  split_ifs
  · exact foldl_put_empty _
  · rfl

/-- Once the inserts are committed they stay. -/
theorem committed (h : Commits sha256 E metadata resetEmptyDestination prepareTarget) :
    (migrateEngines sha256 E metadata resetEmptyDestination false prepareTarget empty).2 =
      copied E metadata empty ∧
    ((∃ r, (migrateEngines sha256 E metadata resetEmptyDestination false prepareTarget empty).1 =
        .ok r) ↔ Verifies sha256 E metadata (copied E metadata empty)) := by
  have hinspect : inspectSource sha256 E metadata resetEmptyDestination empty =
      .ok (metadata.map (entryOf sha256 E)) := inspectSource_eq_ok.mpr
    ⟨h.sourceTables, h.missing, h.destinationTables, h.reflect, h.readSource, rfl⟩
  have hprepare : prepareSchema E resetEmptyDestination prepareTarget = .ok () :=
    prepareSchema_eq_ok.mpr ⟨h.dropAll, h.createAll, h.prepareTarget⟩
  have htransaction : transaction E metadata empty = .ok (copied E metadata empty) :=
    transaction_eq_ok.mpr ⟨h.insert, h.commit, rfl⟩
  have hverify : (∃ report, verify sha256 E metadata (metadata.map (entryOf sha256 E))
      (copied E metadata empty) = .ok report) ↔
        Verifies sha256 E metadata (copied E metadata empty) :=
    verify_ok fun table htable => (h.readSource table htable).2
  unfold migrateEngines
  simp only [hinspect, Bool.false_eq_true, if_false, emptied_eq, hprepare, htransaction]
  rcases hv : verify sha256 E metadata (metadata.map (entryOf sha256 E))
      (copied E metadata empty) with e | report
  · refine ⟨rfl, iff_of_false (by simp) fun hno => ?_⟩
    obtain ⟨report, hreport⟩ := hverify.mpr hno
    rw [hv] at hreport
    simp at hreport
  · exact ⟨rfl, iff_of_true ⟨_, rfl⟩ (hverify.mp ⟨report, hv⟩)⟩

/-- Without a commit it raises and leaves nothing. -/
theorem not_committed (h : ¬ Commits sha256 E metadata resetEmptyDestination prepareTarget) :
    ∃ e, migrateEngines sha256 E metadata resetEmptyDestination false prepareTarget empty =
      (.error e, empty) := by
  unfold migrateEngines
  rcases hinspect : inspectSource sha256 E metadata resetEmptyDestination empty with e | report
  · exact ⟨e, rfl⟩
  obtain ⟨h1, h2, h3, h4, h5, rfl⟩ := inspectSource_eq_ok.mp hinspect
  simp only [Bool.false_eq_true, if_false, emptied_eq]
  rcases hprepare : prepareSchema E resetEmptyDestination prepareTarget with e | _
  · exact ⟨e, rfl⟩
  obtain ⟨h6, h7, h8⟩ := prepareSchema_eq_ok.mp hprepare
  rcases htransaction : transaction E metadata empty with e | content
  · exact ⟨e, rfl⟩
  obtain ⟨h9, h10, -⟩ := transaction_eq_ok.mp htransaction
  exact absurd ⟨h1, h2, h3, h4, h5, h6, h7, h8, h9, h10⟩ h

/-- **The migration is atomic exactly if everything goes through after the commit**, or nothing is
copied. -/
theorem atomic_iff (sha256 : List ℕ → List ℕ) (E : Engines) (metadata : List Table)
    (resetEmptyDestination prepareTarget : Bool)
    (hsha256 : ∀ table ∈ metadata, ∀ source target,
      framed (copyColumns E table) (E.sourceRows table.name) = some source →
      framed (copyColumns E table) (copied E metadata empty table.name) = some target →
        sha256 source = sha256 target → source = target) :
    Atomic sha256 E metadata resetEmptyDestination prepareTarget ↔
      (Commits sha256 E metadata resetEmptyDestination prepareTarget →
        Verifies sha256 E metadata (copied E metadata empty) ∨
          ∀ table ∈ metadata, E.sourceRows table.name = []) := by
  by_cases hcommits : Commits sha256 E metadata resetEmptyDestination prepareTarget
  · obtain ⟨hcontent, hok⟩ := committed hcommits
    have hnil : ∀ name, copied E metadata empty name = [] ↔ empty name = [] ∧
        ∀ table ∈ metadata, table.name = name → E.sourceRows table.name = [] := fun name =>
      copied_eq_nil name fun table htable => (hcommits.insert table htable).2
    have hreturns : Verifies sha256 E metadata (copied E metadata empty) → ∀ table ∈ metadata,
        List.Forall₂ (SameRow (copyColumns E table)) (E.sourceRows table.name)
          (copied E metadata empty table.name) := by
      intro hverifies table htable
      obtain ⟨-, -, digest, hsource, htarget⟩ := hverifies.tables table htable
      obtain ⟨source, hs, hds⟩ := Option.map_eq_some_iff.mp hsource
      obtain ⟨target, ht, hdt⟩ := Option.map_eq_some_iff.mp htarget
      obtain rfl := hsha256 table htable source target hs ht (hds.trans hdt.symm)
      exact framed_inj hs ht
    rw [Atomic, hcontent, imp_iff_right hcommits]
    constructor
    · rintro ⟨herror, -⟩
      rw [← hok]
      rcases hresult : (migrateEngines sha256 E metadata resetEmptyDestination false prepareTarget
        empty).1 with e | r
      · exact Or.inr fun table htable =>
          ((hnil table.name).mp (herror e hresult table htable)).2 table htable rfl
      · exact Or.inl ⟨r, rfl⟩
    · rintro (hverifies | hempty)
      · refine ⟨fun e he => ?_, fun _ _ => hreturns hverifies⟩
        obtain ⟨r, hr⟩ := hok.mpr hverifies
        rw [he] at hr
        simp at hr
      · refine ⟨fun _ _ table _ => ?_, fun r hr => hreturns (hok.mp ⟨r, hr⟩)⟩
        exact (hnil table.name).mpr ⟨rfl, fun other hother _ => hempty other hother⟩
  · obtain ⟨e, he⟩ := not_committed hcommits
    refine iff_of_true ⟨fun _ _ table _ => ?_, fun r hr => ?_⟩ fun h => absurd h hcommits
    · rw [he]
      rfl
    · rw [he] at hr
      simp at hr

/-! ## Samples -/

/-- A MySQL destination that is prepared and stores the rows as they are. -/
def sampleEngines (table : Table) (rows : List (Row String Value)) : Engines where
  sourceTables := [table.name]
  sourceColumns _ := table.columns.map Prod.fst
  sourceRows name := if name = table.name then rows else []
  destinationTables := []
  dialectName := "mysql"
  schema :=
    (expectedColumns.flatMap fun (table, names) => names.map (Object.column table)).toFinset ∪
      (expectedIndexes.flatMap fun (table, names) => names.map (Object.index table)).toFinset
  raises _ := false
  insert _ rows := some rows
  insert_length _ _ _ h := by rw [Option.some.inj h]

def userTable : Table where
  name := "users"
  columns := [("id", false), ("username", false)]
  integerPk := some "id"
  foreignKeys := []

def alice : Row String Value := fun column =>
  if column = "id" then some (.int 1) else if column = "username" then some (.text "alice") else none

/-- The SHA-256 of the row of `alice`; other texts are their own digests. -/
def sampleSha256 (t : List ℕ) : List ℕ :=
  if some t = framed ["id", "username"] [alice] then
    Lib.Unicode.text "b8400fab1d14fcdccbbe3641354eca8d" ++
      Lib.Unicode.text "187e166a62f445f0f413a4e8f95c4f66"
  else t

def userEngines : Engines := sampleEngines userTable [alice]

theorem atomic_users :
    (migrateEngines sampleSha256 userEngines [userTable] false false true
      empty).1.toBool = true ∧
    Atomic sampleSha256 userEngines [userTable] false true := by
  have hreturns : (migrateEngines sampleSha256 userEngines [userTable] false false true
      empty).1.toBool = true := by decide +kernel
  refine ⟨hreturns, (atomic_iff sampleSha256 userEngines [userTable] false true ?_).mpr
    fun hcommits => Or.inl ((committed hcommits).2.mp ?_)⟩
  · intro table htable source target hsource htarget _
    obtain rfl := List.mem_singleton.mp htable
    have hsame : framed (copyColumns userEngines userTable)
        (userEngines.sourceRows userTable.name) =
        framed (copyColumns userEngines userTable)
          (copied userEngines [userTable] empty userTable.name) := by decide +kernel
    exact Option.some.inj (hsource.symm.trans (hsame.trans htarget))
  · rcases hresult : (migrateEngines sampleSha256 userEngines [userTable] false false
      true empty).1 with e | r
    · rw [hresult] at hreturns
      exact absurd hreturns Bool.false_ne_true
    · exact ⟨r, rfl⟩

def leaseTable : Table where
  name := "store_connection_leases"
  columns := [("id", false), ("store_id", false), ("owner_user_id", false), ("device_id", false),
    ("status", false)]
  integerPk := none
  foreignKeys := []

/-- Two active leases without a device. -/
def leaseEngines : Engines := sampleEngines leaseTable [withoutDevice "a", withoutDevice "b"]

/-- They are reported as duplicates when they are committed already. -/
theorem leases_remain : ¬ Atomic id leaseEngines [leaseTable] false true := by
  rintro ⟨herror, -⟩
  have hraised : (migrateEngines id leaseEngines [leaseTable] false false true empty).1 =
      .error (.migration "critical active uniqueness verification failed") := by decide +kernel
  have hrows : ((migrateEngines id leaseEngines [leaseTable] false false true empty).2
      leaseTable.name).length = 2 := by decide +kernel
  rw [herror _ hraised leaseTable List.mem_cons_self] at hrows
  simp at hrows

end IdenGrid.Migration.Atomicity
