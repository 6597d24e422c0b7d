import Mathlib.Logic.Relation
import IdenGrid.Migration.Statements

/-! # The migrations converge

A migration may be interrupted after any statement, and is made anew from what the schema has become.
`converges_iff`: however often that happens, a run that goes through comes to the one schema with all
target objects and no legacy one, except where the schema has both check constraints on the platform
of `device_sessions` to begin with: then the legacy one is never dropped. -/

namespace IdenGrid.Migration.Convergence

open IdenGrid.Lib.Run IdenGrid.Lib.Ddl IdenGrid.Migration.Statements

/-- All that `edge_platform_migration_statements` may have to do on MySQL, in this order. -/
def edgePlatformPlan : List (Change Object) :=
  ["edge_nodes", "node_registration_requests"].flatMap fun table =>
    [(Statement.addPlatform table false).change,
      (Statement.addPlatformCheck table ("ck_" ++ table ++ "_platform") ["linux", "windows"]).change]

/-- All that `mysql_active_uniqueness_statements` may have to do. -/
def activeUniquenessPlan : List (Change Object) :=
  (Statement.dropIndex legacyIndex leases).change ::
    generated.map (fun (column, dataType, source) =>
      (Statement.addGenerated leases column dataType (.whenStatus ["active"] source)).change) ++
    [(Statement.createUniqueIndex scopedIndex leases
      ["active_store_id", "active_owner_user_id", "active_device_id"]).change] ++
    mysqlActiveUniqueness.flatMap fun u =>
      [(Statement.addGenerated u.table u.column u.dataType u.expression).change,
        (Statement.createUniqueIndex u.indexName u.table u.indexColumns).change]

/-- All that `mysql_device_platform_constraint_statements` may have to do. -/
def devicePlatformPlan : List (Change Object) :=
  [(Statement.dropCheck "device_sessions" legacy).change,
    (Statement.addPlatformCheck "device_sessions" supported ["macos", "windows"]).change]

def plan : List (Change Object) := edgePlatformPlan ++ activeUniquenessPlan ++ devicePlatformPlan

/-- The columns that have been there from the start, as far as the statements need them. -/
def baseColumns : Schema :=
  {.column leases "status", .column leases "store_id", .column leases "owner_user_id",
    .column leases "device_id", .column "node_enrollments" "status",
    .column "node_enrollments" "edge_node_id", .column "node_registration_requests" "status",
    .column "node_registration_requests" "machine_fingerprint",
    .column "node_registration_requests" "public_key_fingerprint",
    .column "local_history_entries" "url", .column "local_history_entries" "user_id",
    .column "device_sessions" "platform"}

/-- The schema with all target objects and without the legacy ones. -/
def target (schema : Schema) : Schema := settled plan schema

/-- A pass over the migrations is interrupted after any statement. -/
inductive Crashed : List (Schema → List Statement) → Schema → Schema → Prop
  | during (statements : Schema → List Statement) (later : List (Schema → List Statement))
      (done : List Statement) (s s' : Schema) (made : done <+: statements s)
      (run_ : run exec s done = some s') : Crashed (statements :: later) s s'
  | after (statements : Schema → List Statement) (later : List (Schema → List Statement))
      (s t s' : Schema) (run_ : run exec s (statements s) = some t) (crashed : Crashed later t s') :
      Crashed (statements :: later) s s'

/-- A pass that goes through; `none` is a statement that fails. -/
def migrate (all : List (Schema → List Statement)) (s : Schema) : Option Schema :=
  run (fun s statements => run exec s (statements s)) s all

/-- Any number of passes, each interrupted somewhere. -/
def Restarted : Schema → Schema → Prop := Relation.ReflTransGen (Crashed migrations)

/-! ## What the functions emit -/

theorem ordered_plan : Ordered baseColumns plan := by decide

/-- A statement that is emitted if it is due, before the others. -/
theorem emit_due {s : Schema} (statement : Statement) {rest : List Statement}
    {cs : List (Change Object)} (h : rest.map Statement.change = cs.filter (Change.due s)) :
    (emit (statement.change.due s) statement ++ rest).map Statement.change =
      (statement.change :: cs).filter (Change.due s) := by
  unfold emit
  split_ifs with hdue
  · rw [List.filter_cons_of_pos hdue, ← h]
    rfl
  · rw [List.filter_cons_of_neg hdue, ← h]
    rfl

theorem emit_one_due (s : Schema) (statement : Statement) :
    (emit (statement.change.due s) statement).map Statement.change =
      [statement.change].filter (Change.due s) := by
  rw [← List.append_nil (emit _ statement)]
  exact emit_due statement rfl

/-- A column and what is built on it. -/
theorem emit_pair_due (s : Schema) (first second : Statement) :
    (emit (first.change.due s) first ++ emit (second.change.due s) second).map Statement.change =
      [first.change, second.change].filter (Change.due s) :=
  emit_due first (emit_one_due s second)

theorem edgePlatform_due (s : Schema) :
    (edgePlatformMigrationStatements s "mysql").map Statement.change =
      edgePlatformPlan.filter (Change.due s) := by
  unfold edgePlatformMigrationStatements edgePlatformPlan
  rw [List.map_flatMap, List.filter_flatMap]
  refine List.flatMap_congr fun table _ => ?_
  have hcheck : decide ("mysql" = "mysql" ∧
      .check table ("ck_" ++ table ++ "_platform") ∉ s) =
        (Statement.addPlatformCheck table ("ck_" ++ table ++ "_platform")
          ["linux", "windows"]).change.due s := by
    simp [Statement.change, Change.due]
  unfold edgePlatformStatements
  rw [hcheck]
  exact emit_pair_due s (.addPlatform table false) _

theorem activeUniqueness_due (s : Schema) :
    (mysqlActiveUniquenessStatements s).map Statement.change =
      activeUniquenessPlan.filter (Change.due s) := by
  unfold mysqlActiveUniquenessStatements mysqlActiveStoreLeaseStatements activeUniquenessPlan
  simp only [List.append_assoc, List.cons_append, List.nil_append]
  refine emit_due (.dropIndex legacyIndex leases) ?_
  rw [List.map_append, List.filter_append]
  refine congrArg₂ _ ?_ (emit_due (.createUniqueIndex scopedIndex leases _) ?_)
  · rw [List.map_flatMap, List.map_eq_flatMap, List.filter_flatMap]
    refine List.flatMap_congr fun column _ => ?_
    exact emit_one_due s (.addGenerated leases column.1 column.2.1 _)
  · rw [List.map_flatMap, List.filter_flatMap]
    refine List.flatMap_congr fun u _ => ?_
    exact emit_pair_due s (.addGenerated u.table u.column u.dataType u.expression)
      (.createUniqueIndex u.indexName u.table u.indexColumns)

/-- The legacy check is dropped, unless the new one is there. -/
theorem devicePlatform_due {s : Schema}
    (h : ¬ (.check "device_sessions" legacy ∈ s ∧ .check "device_sessions" supported ∈ s)) :
    (mysqlDevicePlatformConstraintStatements s).map Statement.change =
      devicePlatformPlan.filter (Change.due s) := by
  unfold mysqlDevicePlatformConstraintStatements
  split_ifs with hsupported
  · have hlegacy : .check "device_sessions" legacy ∉ s := fun hl => h ⟨hl, hsupported⟩
    simp [devicePlatformPlan, Statement.change, Change.due, hsupported, hlegacy]
  · refine emit_due (.dropCheck "device_sessions" legacy) ?_
    rw [List.filter_cons_of_pos (by simpa [Statement.change, Change.due] using hsupported)]
    rfl

/-! ## A pass over the migrations -/

/-- Nothing stands in the way: the base columns are there, and not both checks on the platform of
`device_sessions`. -/
structure Clear (s : Schema) : Prop where
  base : baseColumns ⊆ s
  checks : ¬ (.check "device_sessions" legacy ∈ s ∧ .check "device_sessions" supported ∈ s)

/-- A migration whose statements are those of the changes that are due. -/
structure Follows (statements : Schema → List Statement) (cs : List (Change Object)) : Prop where
  ordered : Ordered baseColumns cs
  subset : ∀ c ∈ cs, c ∈ plan
  due : ∀ s, Clear s → (statements s).map Statement.change = cs.filter (Change.due s)
  /-- Wherever it is interrupted, nothing stands in the way. -/
  clear : ∀ s s' done, Clear s → done <+: statements s → run exec s done = some s' → Clear s'

variable {statements : Schema → List Statement} {cs : List (Change Object)} {s s' : Schema}

/-- The part of a migration that has been run. -/
theorem mem_done (hdue : (statements s).map Statement.change = cs.filter (Change.due s))
    {done : List Statement} (hdone : done <+: statements s) {statement : Statement}
    (h : statement ∈ done) : statement.change ∈ cs := by
  have hmem : statement.change ∈ (statements s).map Statement.change :=
    List.mem_map.mpr ⟨statement, hdone.subset h, rfl⟩
  rw [hdue] at hmem
  exact (List.mem_filter.mp hmem).1

/-- Statements of the plan keep the base and the goal. -/
theorem run_plan {done : List Statement} (hdone : ∀ st ∈ done, st.change ∈ plan)
    (hr : run exec s done = some s') (hbase : baseColumns ⊆ s) :
    baseColumns ⊆ s' ∧ target s' = target s := by
  refine run_inv_along (C := fun _ st => st.change ∈ plan)
    (I := fun t => baseColumns ⊆ t ∧ target t = target s) ?_ done s s' ⟨hbase, rfl⟩
    (along_of_forall hdone s) hr
  rintro t st t' ⟨ht, htarget⟩ hst hs
  refine ⟨subset_exec (fun x hx => ?_) ht hs, (settled_exec hst hs).trans htarget⟩
  rw [hx] at hst
  exact ordered_plan.notMem_base hst

/-- Statements that are not about an object leave it alone. -/
theorem run_other {done : List Statement} {x : Object} (hdone : ∀ st ∈ done, x ≠ st.change.item)
    (hr : run exec s done = some s') : x ∈ s' ↔ x ∈ s := by
  refine run_inv_along (C := fun _ st => x ≠ st.change.item) (I := fun t => x ∈ t ↔ x ∈ s) ?_ done
    s s' Iff.rfl (along_of_forall hdone s) hr
  intro t st t' ht hst hs
  exact (mem_exec hst hs).trans ht

/-- A migration that is not about the checks on `device_sessions`. -/
theorem Follows.of_other (ho : Ordered baseColumns cs) (hsub : ∀ c ∈ cs, c ∈ plan)
    (hdue : ∀ s, (statements s).map Statement.change = cs.filter (Change.due s))
    (hlegacy : .check "device_sessions" legacy ∉ cs.map Change.item)
    (hsupported : .check "device_sessions" supported ∉ cs.map Change.item) :
    Follows statements cs := by
  refine ⟨ho, hsub, fun s _ => hdue s, fun s s' done hs hdone hr => ?_⟩
  have hother : ∀ x ∉ cs.map Change.item, (x ∈ s' ↔ x ∈ s) := fun x hx =>
    run_other (fun st hst heq => hx (List.mem_map.mpr ⟨_, mem_done (hdue s) hdone hst, heq.symm⟩)) hr
  refine ⟨(run_plan (fun st hst => hsub _ (mem_done (hdue s) hdone hst)) hr hs.base).1, ?_⟩
  rw [hother _ hlegacy, hother _ hsupported]
  exact hs.checks

theorem follows_edgePlatform :
    Follows (fun s => edgePlatformMigrationStatements s "mysql") edgePlatformPlan :=
  .of_other (by decide) (by decide) edgePlatform_due (by decide) (by decide)

theorem follows_activeUniqueness :
    Follows mysqlActiveUniquenessStatements activeUniquenessPlan :=
  .of_other (by decide) (by decide) activeUniqueness_due (by decide) (by decide)

/-- The legacy check is gone before the new one comes. -/
theorem follows_devicePlatform :
    Follows mysqlDevicePlatformConstraintStatements devicePlatformPlan := by
  refine ⟨by decide, by decide, fun _ h => devicePlatform_due h.checks, ?_⟩
  intro s s' done hs hdone hr
  have hdue := devicePlatform_due hs.checks
  have hsub : ∀ c ∈ devicePlatformPlan, c ∈ plan := by decide
  refine ⟨(run_plan (fun st hst => hsub _ (mem_done hdue hdone hst)) hr hs.base).1, ?_⟩
  have hadds : ∀ (t : Schema) (rest : List Statement), (∀ st ∈ rest, st =
      .addPlatformCheck "device_sessions" supported ["macos", "windows"]) →
      run exec t rest = some s' → .check "device_sessions" legacy ∉ t →
      .check "device_sessions" legacy ∉ s' := by
    intro t rest hrest hrun ht
    rw [run_other (fun st hst => ?_) hrun]
    · exact ht
    · rw [hrest st hst]
      decide
  rintro ⟨hlegacy, hsupported⟩
  by_cases hnew : .check "device_sessions" supported ∈ s
  · rw [mysqlDevicePlatformConstraintStatements, if_pos hnew, List.prefix_nil] at hdone
    subst hdone
    obtain rfl : s = s' := Option.some.inj hr
    exact hs.checks ⟨hlegacy, hsupported⟩
  rw [mysqlDevicePlatformConstraintStatements, if_neg hnew] at hdone
  by_cases hold : .check "device_sessions" legacy ∈ s
  · rw [emit, if_pos (by simpa using hold), List.cons_append, List.nil_append] at hdone
    rcases done with _ | ⟨first, rest⟩
    · obtain rfl : s = s' := Option.some.inj hr
      exact hnew hsupported
    · obtain ⟨rfl, hrest⟩ := List.cons_prefix_cons.mp hdone
      obtain ⟨t, ht, hr⟩ := run_eq_some_cons.mp hr
      refine hadds t rest (fun st hst => by simpa using hrest.subset hst) hr ?_ hlegacy
      have hdrop : exec s (.dropCheck "device_sessions" legacy) =
          some (s.erase (.check "device_sessions" legacy)) := if_pos hold
      obtain rfl := Option.some.inj (hdrop.symm.trans ht)
      exact Finset.notMem_erase _ _
  · rw [emit, if_neg (by simpa using hold), List.nil_append] at hdone
    exact hadds s done (fun st hst => by simpa using hdone.subset hst) hr hold hlegacy

/-- **A migration that goes through settles its part.** -/
theorem Follows.settles (hf : Follows statements cs) (hs : Clear s) :
    run exec s (statements s) = some (settled cs s) := by
  change run (fun s statement => Change.exec s (Statement.change statement)) s _ = _
  rw [run_map, hf.due s hs]
  exact run_due hf.ordered hs.base

/-- The schema after a migration that has gone through. -/
theorem Follows.clear_settled (hf : Follows statements cs) (hs : Clear s) :
    Clear (settled cs s) :=
  hf.clear s _ _ hs (List.prefix_refl _) (hf.settles hs)

theorem Follows.target_eq (hf : Follows statements cs) (hs : Clear s) {done : List Statement}
    (hdone : done <+: statements s) (hr : run exec s done = some s') : target s' = target s :=
  (run_plan (fun _ hst => hf.subset _ (mem_done (hf.due s hs) hdone hst)) hr hs.base).2

theorem base_subset_target (h : baseColumns ⊆ s) : baseColumns ⊆ target s := fun _ hx =>
  mem_settled.mpr ⟨Or.inl (h hx), fun hout => ordered_plan.notMem_base (mem_unwanted.mp hout) hx⟩

/-- The target is the same for all schemas that have nothing but what the migrations know. -/
theorem target_eq (hbase : baseColumns ⊆ s)
    (hknown : s ⊆ baseColumns ∪ wanted plan ∪ unwanted plan) :
    target s = baseColumns ∪ wanted plan := by
  ext x
  rw [target, mem_settled, Finset.mem_union]
  constructor
  · rintro ⟨hx | hx, hout⟩
    · rcases Finset.mem_union.mp (hknown hx) with hx | hx
      · exact Finset.mem_union.mp hx
      · exact absurd hx hout
    · exact Or.inr hx
  · have hplan : Disjoint (wanted plan) (unwanted plan) := by decide
    rintro (hx | hx)
    · exact ⟨Or.inl (hbase hx), fun hout => ordered_plan.notMem_base (mem_unwanted.mp hout) hx⟩
    · exact ⟨Or.inr hx, Finset.disjoint_left.mp hplan hx⟩

/-! ## Crashes and restarts -/

theorem follows_migrations : List.Forall₂ Follows migrations
    [edgePlatformPlan, activeUniquenessPlan, devicePlatformPlan] :=
  .cons follows_edgePlatform (.cons follows_activeUniqueness (.cons follows_devicePlatform .nil))

/-- **A crash leaves the goal where it is.** -/
theorem Crashed.target_eq {all : List (Schema → List Statement)} {plans : List (List (Change Object))}
    (hall : List.Forall₂ Follows all plans) (hc : Crashed all s s') (hs : Clear s) :
    Clear s' ∧ target s' = target s := by
  induction hc generalizing plans with
  | during statements later done s s' made run_ =>
    cases hall with
    | cons hf _ => exact ⟨hf.clear s s' done hs made run_, hf.target_eq hs made run_⟩
  | after statements later s t s' run_ _ ih =>
    cases hall with
    | cons hf hlater =>
      obtain ⟨hclear, htarget⟩ := ih hlater (hf.clear s t _ hs (List.prefix_refl _) run_)
      exact ⟨hclear, htarget.trans (hf.target_eq hs (List.prefix_refl _) run_)⟩

theorem Restarted.target_eq (h : Restarted s s') (hs : Clear s) :
    Clear s' ∧ target s' = target s := by
  induction h with
  | refl => exact ⟨hs, rfl⟩
  | tail _ hc ih =>
    obtain ⟨hclear, htarget⟩ := hc.target_eq follows_migrations ih.1
    exact ⟨hclear, htarget.trans ih.2⟩

/-- **A pass that is not interrupted comes to the target.** -/
theorem migrate_eq (hs : Clear s) : migrate migrations s = some (target s) := by
  have h1 := follows_edgePlatform.settles hs
  have hs1 := follows_edgePlatform.clear_settled hs
  have h2 := follows_activeUniqueness.settles hs1
  have hs2 := follows_activeUniqueness.clear_settled hs1
  have h3 := follows_devicePlatform.settles hs2
  have hplan : target s = settled devicePlatformPlan (settled activeUniquenessPlan
      (settled edgePlatformPlan s)) := by
    have hdisjoint : ∀ x needs, Change.add x needs ∈ plan → Change.drop x ∉ plan :=
      fun _ _ => ordered_plan.disjoint
    rw [target, plan, settled_append, settled_append]
    · intro x needs hadd hdrop
      exact hdisjoint x needs (follows_activeUniqueness.subset _ hadd)
        (follows_edgePlatform.subset _ hdrop)
    · intro x needs hadd hdrop
      exact hdisjoint x needs (follows_devicePlatform.subset _ hadd)
        (List.mem_append_left _ hdrop)
  rw [hplan]
  exact run_eq_some_cons.mpr ⟨_, h1, run_eq_some_cons.mpr ⟨_, h2, run_eq_some_cons.mpr ⟨_, h3, rfl⟩⟩⟩

/-- Nothing is left to do at the target. -/
theorem target_done (hs : Clear s) : ∀ statements ∈ migrations, statements (target s) = [] := by
  have hnone : ∀ {statements : Schema → List Statement} {cs : List (Change Object)},
      Follows statements cs → statements (target s) = [] := by
    intro statements cs hf
    have hclear : Clear (target s) := by
      refine ⟨base_subset_target hs.base, fun h => ?_⟩
      exact (mem_settled.mp h.1).2 (mem_unwanted.mpr (by decide))
    have hdue := hf.due (target s) hclear
    have hall : plan.filter (Change.due (target s)) = [] := filter_due_settled ordered_plan s
    rw [List.filter_eq_nil_iff.mpr fun c hc => List.filter_eq_nil_iff.mp hall c (hf.subset c hc)]
      at hdue
    exact List.map_eq_nil_iff.mp hdue
  intro statements hmem
  simp only [migrations, List.mem_cons, List.not_mem_nil, or_false] at hmem
  rcases hmem with rfl | rfl | rfl
  · exact hnone follows_edgePlatform
  · exact hnone follows_activeUniqueness
  · exact hnone follows_devicePlatform

/-- With both checks the legacy one stays. -/
theorem migrate_both
    (hboth : .check "device_sessions" legacy ∈ s ∧ .check "device_sessions" supported ∈ s)
    {t : Schema} (h : migrate migrations s = some t) : .check "device_sessions" legacy ∈ t := by
  obtain ⟨s1, h1, h⟩ := run_eq_some_cons.mp h
  obtain ⟨s2, h2, h⟩ := run_eq_some_cons.mp h
  obtain ⟨s3, h3, h⟩ := run_eq_some_cons.mp h
  obtain rfl : s3 = t := Option.some.inj h
  have hkeeps : ∀ (statements : Schema → List Statement) {cs : List (Change Object)}
      {s s' : Schema} {x : Object}, x ∉ cs.map Change.item →
      (statements s).map Statement.change = cs.filter (Change.due s) →
      run exec s (statements s) = some s' → (x ∈ s' ↔ x ∈ s) := by
    intro statements cs s s' x hx hdue hr
    refine run_other (fun st hst heq => hx ?_) hr
    exact List.mem_map.mpr ⟨_, mem_done hdue (List.prefix_refl _) hst, heq.symm⟩
  have hstays : ∀ x, x ∉ (edgePlatformPlan ++ activeUniquenessPlan).map Change.item →
      (x ∈ s2 ↔ x ∈ s) := by
    intro x hx
    rw [List.map_append, List.mem_append, not_or] at hx
    rw [hkeeps mysqlActiveUniquenessStatements hx.2 (activeUniqueness_due s1) h2]
    exact hkeeps (fun s => edgePlatformMigrationStatements s "mysql") hx.1 (edgePlatform_due s) h1
  have hlegacy := (hstays _ (by decide)).mpr hboth.1
  have hsupported := (hstays _ (by decide)).mpr hboth.2
  rw [mysqlDevicePlatformConstraintStatements, if_pos hsupported] at h3
  obtain rfl : s2 = s3 := Option.some.inj h3
  exact hlegacy

/-- However often the migrations are interrupted, a pass that goes through comes to the target, and
then there is nothing left to do. -/
def Converges (s : Schema) : Prop :=
  ∀ s', Restarted s s' →
    migrate migrations s' = some (target s) ∧ ∀ statements ∈ migrations, statements (target s) = []

/-- **The migrations converge, unless both checks are there.** -/
theorem converges_iff {s : Schema} (hbase : baseColumns ⊆ s) :
    Converges s ↔
      ¬ (.check "device_sessions" legacy ∈ s ∧ .check "device_sessions" supported ∈ s) := by
  constructor
  · intro hconverges hboth
    obtain ⟨hmigrate, -⟩ := hconverges s .refl
    have hkept := migrate_both hboth hmigrate
    exact (mem_settled.mp hkept).2 (mem_unwanted.mpr (by decide))
  · intro hchecks s' hs'
    have hs : Clear s := ⟨hbase, hchecks⟩
    obtain ⟨hclear, htarget⟩ := Restarted.target_eq hs' hs
    exact ⟨(migrate_eq hclear).trans (congrArg some htarget), target_done hs⟩

/-- A schema from before the first migration, with both legacy objects. -/
def legacySchema : Schema :=
  baseColumns ∪ {.column leases "active_store_id", .index leases legacyIndex,
    .check "device_sessions" legacy}

theorem converges_legacy : baseColumns ⊆ legacySchema ∧ Converges legacySchema :=
  ⟨Finset.subset_union_left,
    (converges_iff (s := legacySchema) Finset.subset_union_left).mpr (by decide)⟩

/-- The new check has been added next to the legacy one. -/
def bothChecks : Schema := legacySchema ∪ {.check "device_sessions" supported}

theorem bothChecks_diverges : ¬ Converges bothChecks := by
  intro h
  obtain ⟨hmigrate, -⟩ := h bothChecks .refl
  have hmade : migrate migrations bothChecks ≠ some (target bothChecks) := by decide
  exact hmade hmigrate

end IdenGrid.Migration.Convergence
