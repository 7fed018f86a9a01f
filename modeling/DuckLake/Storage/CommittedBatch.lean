import DuckLake.Storage.CompactionConflicts
import DuckLake.Storage.NewObjects

/-!
# The ids of a whole batch

The stages of a commit one after the other, with the books kept over all of them: what a stage has
written is what the next one may refer to. At the end every id that was given out is written once,
and no transaction-local id is written at all. Runs of commits continue each other's counters.
-/

namespace DuckLake

section Stages

variable [SQLWriter]

open CommitM Attempt

variable {scope : IdScope} {L : Ledger} {T : StagedTransaction}

/-! ## The catalog -/

theorem writeDrops_accounted (h : (∀ id ∈ T.droppedTables, IsCommitted id) ∧
      (∀ id ∈ T.renamedTables, IsCommitted id) ∧ (∀ id ∈ T.droppedViews, IsCommitted id) ∧
      (∀ id ∈ T.renamedViews, IsCommitted id) ∧
      (∀ id ∈ T.droppedMaterializedViews, IsCommitted id) ∧
      (∀ id ∈ T.droppedScalarMacros, IsCommitted id) ∧
      (∀ id ∈ T.droppedTableMacros, IsCommitted id) ∧
      (∀ id ∈ T.droppedProcedures, IsCommitted id) ∧ ∀ id ∈ T.droppedSchemas, IsCommitted id) :
    Yields (Accounted.At scope L) (writeDrops T) fun _ => Accounted.At scope L := by
  obtain ⟨htables, hrenamed, hviews, hrenamedViews, hmaterialized, hscalar, htable, hprocedures,
    hschemas⟩ := h
  unfold writeDrops
  refine .bind (emitIf_plain (fun _ _ _ => htables) (fun _ => rfl) rfl) fun _ => ?_
  refine .bind (emitIf_plain (fun _ _ _ => hrenamed) (fun _ => rfl) rfl) fun _ => ?_
  refine .bind (emitIf_plain (fun _ _ _ => hviews) (fun _ => rfl) rfl) fun _ => ?_
  refine .bind (emitIf_plain (fun _ _ _ => hrenamedViews) (fun _ => rfl) rfl) fun _ => ?_
  refine .bind (emitIf_plain (fun _ _ _ => hmaterialized) (fun _ => rfl) rfl) fun _ => ?_
  refine .bind (emitIf_plain (fun _ _ _ => hscalar) (fun _ => rfl) rfl) fun _ => ?_
  refine .bind (emitIf_plain (fun _ _ _ => htable) (fun _ => rfl) rfl) fun _ => ?_
  refine .bind (emitIf_plain (fun _ _ _ => hprocedures) (fun _ => rfl) rfl) fun _ => ?_
  exact emitIf_plain (fun _ _ _ => hschemas) (fun _ => rfl) rfl

theorem writeNewSchemas_accounted
    (hparents : ∀ schema ∈ T.newSchemas, ∀ parent ∈ schema.entry.parents.head?,
      IsCommitted parent.schemaId ∨ ∃ other ∈ T.newSchemas,
        other.entry.schemaId = parent.schemaId ∧ other.depth < schema.depth)
    (hroom : T.newSchemas.length ≤ scope.limit) (env : CommitEnvironment) :
    Yields (Accounted.At scope {}) (writeNewSchemas env T) fun _ => Accounted.At scope
      { spent := T.newSchemas.length, schemas := T.stagedSchemas } := by
  unfold writeNewSchemas
  refine (getNewSchemas_accounted hparents hroom).bind fun infos => .pull fun hinfos => ?_
  refine .bind (emitIf_accounted [] [] ?_ ?_ (.refl _) ?_) fun _ =>
    .pure fun s hs => hs
  · intro next _ _ row hrow
    obtain ⟨info, hinfo, rfl⟩ := List.mem_map.1 hrow
    exact hinfos info hinfo
  · simp only [Statement.newCatalogIds, List.map_map, List.nil_append]
    exact .refl _
  · intro hempty
    have hnone : infos = [] := by simpa using hempty
    subst hnone
    exact ⟨rfl, rfl⟩

/-- Rows with a path each are the rows. -/
theorem mapM_path {α : Type} {P : CommitAttempt → Prop} {rows : List α}
    {path : α → Except Exception DuckLakePath} :
    Yields P (rows.mapM fun row => do
        let p ← (MonadExcept.ofExcept (path row) : CommitM DuckLakePath)
        return (row, p)) fun rows' s => P s ∧ rows'.map (·.1) = rows := by
  refine (Yields.mapM (fun done rows' s => P s ∧ rows'.map (·.1) = done) ?_).mono
    (fun s hs => ⟨hs, rfl⟩) fun rows' s hs => hs
  intro done row rest rows' _
  refine .pull fun hrows => ?_
  refine (Yields.ofExcept fun _ _ hs _ => hs).bind fun p => .pure fun s hs => ⟨hs, ?_⟩
  rw [List.map_append, hrows]
  rfl

theorem getCommitSnapshot_accounted :
    Yields (Accounted.At scope L) getCommitSnapshot fun _ => Accounted.At scope L := by
  intro s hs snapshot s' hrun
  cases hrun
  exact hs

/-- The rows of tables and views are written with the ids that were in hand for them. -/
theorem writeTableRows_accounted {r : NewTableInfo} (schemas : List DuckLakeSchemaInfo) :
    Yields (Collected scope L r) (writeTableRows scope.env schemas r) fun _ =>
      Accounted.At scope { L with newIds := [] } := by
  unfold writeTableRows
  refine .pull fun hr => ?_
  let first := scope.env.snapshot.nextCatalogId
  let viewIds := (r.newViews.map (·.id)).filter (first ≤ ·)
  let partitionIds := r.newPartitionKeys.filterMap (·.id)
  let sortIds := r.newSortKeys.filterMap (·.id)
  refine mapM_path.bind fun rows => .pull fun hrows => ?_
  have hcommitted : ∀ row ∈ rows, row.1 ∈ r.newTables := by
    intro row hrow
    rw [← hrows]
    exact List.mem_map_of_mem hrow
  refine .bind (emit_accounted (viewIds ++ partitionIds ++ sortIds)
    L.newFiles (fun _ _ _ row hrow => hr.tables row.1 (hcommitted row hrow)) ?_
    (by simp [Statement.newFileIds])) fun _ => ?_
  · have hids : rows.map (·.1.id) = r.newTables.map (·.id) := by
      rw [← hrows, List.map_map]
      rfl
    refine List.perm_iff_count.2 fun a => ?_
    simp only [NewTableInfo.newIds, Statement.newCatalogIds, hids, List.count_append, viewIds,
      partitionIds, sortIds, first]
    omega
  refine .bind (emit_plain (fun _ _ _ => hr.options) (fun _ => rfl) rfl) fun _ => ?_
  refine store_accounted.bind fun _ => ?_
  refine getCommitSnapshot_accounted.bind fun snapshot => ?_
  refine ofExcept_accounted.bind fun partitions => .pull fun _ => ?_
  refine ofExcept_accounted.bind fun sorts => .pull fun _ => ?_
  refine .bind (emit_accounted (viewIds ++ sortIds) L.newFiles
    (fun _ _ _ => hr.partitionKeys) ?_ (by simp [Statement.newFileIds])) fun _ => ?_
  · refine List.perm_iff_count.2 fun a => ?_
    simp only [Statement.newCatalogIds, List.count_append, partitionIds]
    omega
  refine .bind (emit_accounted sortIds L.newFiles
    (fun _ _ _ => hr.views) ?_ (by simp [Statement.newFileIds])) fun _ => ?_
  · refine List.perm_iff_count.2 fun a => ?_
    simp only [Statement.newCatalogIds, List.count_append, viewIds, first]
    omega
  refine .bind (emit_plain (fun _ _ _ => hr.tags) (fun _ => rfl) rfl) fun _ => ?_
  refine .bind (emit_plain (fun _ _ _ => hr.columnTags) (fun _ => rfl) rfl) fun _ => ?_
  refine .bind (emit_plain (fun _ _ _ => hr.viewColumnTags) (fun _ => rfl) rfl) fun _ => ?_
  refine .bind (emit_plain (fun _ _ _ => hr.droppedColumns) (fun _ => rfl) rfl) fun _ => ?_
  refine .bind (emit_plain (fun _ _ _ row hrow => ?_) (fun _ => rfl) rfl) fun _ => ?_
  · exact hr.droppedColumns row (List.mem_filter.1 hrow).1
  refine .bind (emit_plain (fun _ _ _ => hr.newColumns) (fun _ => rfl) rfl) fun _ => ?_
  refine ofExcept_accounted.bind fun inlined => .pull fun hinlined => ?_
  refine .bind (emit_plain (fun _ _ _ => ⟨_, _, hinlined, hr.inlinedTables⟩) (fun _ => rfl) rfl)
    fun _ => ?_
  refine .bind (emit_accounted [] L.newFiles
    (fun _ _ _ => hr.sortKeys) ?_ (by simp [Statement.newFileIds])) fun _ => ?_
  · exact .refl _
  exact emit_plain (fun _ _ _ => hr.constraints) (fun _ => rfl) rfl

theorem writeNewTables_accounted (hL : L.newIds = [])
    (hentries : ∀ entry ∈ T.stagedEntries,
      entry.Writable scope.env.snapshot.nextCatalogId L.schemas)
    (hknown : ∀ id ∈ T.stagedTables, scope.Known id)
    (hroom : L.spent + (T.stagedEntries.map (·.size)).sum ≤ scope.limit)
    (schemas : List DuckLakeSchemaInfo) :
    Yields (Accounted.At scope L) (writeNewTables scope.env T schemas) fun _ =>
      Accounted.At scope { L with
        spent := L.spent + (T.stagedEntries.map (·.size)).sum
        tables := T.stagedTables ++ L.tables } := by
  unfold writeNewTables
  split
  · rename_i hempty
    have hnone : T.stagedEntries = [] := by
      rw [StagedTransaction.stagedEntries, List.isEmpty_iff.1 hempty]
      rfl
    refine .pure fun s hs => ?_
    rw [StagedTransaction.stagedTables, hnone]
    exact hs
  · refine (getNewTables_collected hL hentries hknown hroom).bind fun r => ?_
    refine (writeTableRows_accounted schemas).bind fun _ => .pure fun s hs => ?_
    rwa [← hL] at hs

/-- A statement that writes all ids in hand, or is left out when there are none. -/
theorem emitIf_newIds {M : Ledger} {cond : Bool} {statement : Statement} (hL : L.newIds = [])
    (hrefers : ∀ next, scope.env.snapshot.nextFileId ≤ next → (∀ id ∈ M.held, id < next) →
      statement.Refers scope.env next)
    (hids : M.newIds = statement.newCatalogIds scope.env.snapshot.nextCatalogId)
    (hfiles : statement.newFileIds = [])
    (hempty : cond = false → statement.newCatalogIds scope.env.snapshot.nextCatalogId = []) :
    Yields (Accounted.At scope M) (emitIf cond statement) fun _ =>
      Accounted.At scope { M with newIds := L.newIds } := by
  rw [hL]
  refine emitIf_accounted [] M.newFiles hrefers (.of_eq hids) ?_
    fun h => ⟨hempty h, hfiles⟩
  rw [hfiles, List.append_nil]

/-! ### Materialized views -/

theorem newMaterializedViewId_accounted {id : TableIndex} (hroom : L.spent < scope.limit)
    (hold : IsCommitted id → id < scope.env.snapshot.nextCatalogId) :
    Yields (Accounted.At scope L) (newMaterializedViewId id) fun new s =>
      Accounted.At scope { L with
        spent := L.spent + 1
        newIds := L.newIds ++ [new].filter (scope.env.snapshot.nextCatalogId ≤ ·)
        tables := id :: L.tables } s ∧ IsCommitted new := by
  unfold newMaterializedViewId
  split
  · refine (nextCatalogId_unused hroom).bind fun new => .pull fun hnew => ?_
    refine .bind (.mono (emplaceTable_accounted _ hnew.1) (fun s hs => ⟨hs.1, fun _ => ⟨?_, hs.2⟩⟩)
      fun _ _ hs => hs) fun _ => .pure fun s hs => ⟨?_, hnew.1⟩
    · simp
    · simpa [hnew.2] using hs
  · rename_i hlocal
    have hcommitted : IsCommitted id := by simpa [IsCommitted] using hlocal
    intro s hs new s' hrun
    cases hrun
    have hsame : s.commitState.getTableId id = id :=
      s.commitState.getTableId_of_committed hcommitted
    rw [hsame]
    have hlt : ¬ scope.env.snapshot.nextCatalogId ≤ id := not_le.2 (hold hcommitted)
    have hids : L.newIds.Perm (L.newIds ++
        [id].filter (scope.env.snapshot.nextCatalogId ≤ ·)) := by simp [hlt]
    refine ⟨{ hs.permute hids with
      counted := hs.counted.mono (Nat.le_succ _), tables := fun id' hid' => ?_ }, hcommitted⟩
    rcases List.mem_cons.1 hid' with rfl | hid'
    · rw [hsame]
      exact hcommitted
    · exact hs.tables id' hid'

/-- The row of a materialized view refers to committed ids. -/
def DuckLakeMaterializedViewInfo.Refers (row : DuckLakeMaterializedViewInfo) : Prop :=
  IsCommitted row.id ∧ IsCommitted row.schemaId ∧ IsCommitted row.backingTableId ∧
    ∀ id ∈ row.dependencies, IsCommitted id

theorem newMaterializedView_accounted {mv : DuckLakeMaterializedViewInfo}
    (hroom : L.spent < scope.limit)
    (hold : IsCommitted mv.id → mv.id < scope.env.snapshot.nextCatalogId)
    (hschema : IsCommitted mv.schemaId ∨ mv.schemaId ∈ L.schemas)
    (hrefs : ∀ id ∈ mv.backingTableId :: mv.dependencies,
      IsCommitted id ∨ id ∈ mv.id :: L.tables) :
    Yields (Accounted.At scope L) (newMaterializedView mv) fun row s =>
      Accounted.At scope { L with
        spent := L.spent + 1
        newIds := L.newIds ++ [row.id].filter (scope.env.snapshot.nextCatalogId ≤ ·)
        tables := mv.id :: L.tables } s ∧ row.Refers := by
  unfold newMaterializedView
  refine (newMaterializedViewId_accounted hroom hold).bind fun id => .pull fun hid => ?_
  refine (getCommitState_accounted (p := fun state => IsCommitted (state.getSchemaId mv.schemaId) ∧
    ∀ id ∈ mv.backingTableId :: mv.dependencies, IsCommitted (state.getTableId id)) ?_).bind
    fun state => .pull fun hstate => .pure fun s hs => ⟨hs, hid, hstate.1, ?_, ?_⟩
  · intro s hs
    exact ⟨hs.getSchemaId hschema, fun id hid => hs.getTableId (hrefs id hid)⟩
  · exact hstate.2 _ (.head _)
  · intro id' hid'
    obtain ⟨old, hold', rfl⟩ := List.mem_map.1 hid'
    exact hstate.2 old (.tail _ hold')

theorem writeNewMaterializedViews_accounted (hL : L.newIds = [])
    (hviews : ∀ before mv after, T.newMaterializedViews = before ++ mv :: after →
      (IsCommitted mv.schemaId ∨ mv.schemaId ∈ L.schemas) ∧
      (IsCommitted mv.id → mv.id < scope.env.snapshot.nextCatalogId) ∧
      ∀ id ∈ mv.backingTableId :: mv.dependencies, IsCommitted id ∨ id ∈ L.tables ∨
        id ∈ (before ++ [mv]).map (·.id))
    (hroom : L.spent + T.newMaterializedViews.length ≤ scope.limit) :
    Yields (Accounted.At scope L) (writeNewMaterializedViews T) fun _ =>
      Accounted.At scope { L with
        spent := L.spent + T.newMaterializedViews.length
        tables := T.newMaterializedViews.map (·.id) ++ L.tables } := by
  unfold writeNewMaterializedViews
  have hloop : Yields (Accounted.At scope L) (T.newMaterializedViews.mapM newMaterializedView)
      fun rows s => Accounted.At scope { L with
        spent := L.spent + T.newMaterializedViews.length
        newIds := (rows.map (·.id)).filter (scope.env.snapshot.nextCatalogId ≤ ·)
        tables := T.newMaterializedViews.map (·.id) ++ L.tables } s ∧ ∀ row ∈ rows, row.Refers := by
    refine (Yields.mapM (fun (done rows : List DuckLakeMaterializedViewInfo) s =>
      Accounted.At scope { L with
        spent := L.spent + done.length
        newIds := (rows.map (·.id)).filter (scope.env.snapshot.nextCatalogId ≤ ·)
        tables := (done.map (·.id)).reverse ++ L.tables } s ∧ ∀ row ∈ rows, row.Refers) ?_).mono
      ?_ ?_
    · intro done mv rest rows hsplit
      refine .pull fun hrows => ?_
      obtain ⟨hschema, hold, hrefs⟩ := hviews done mv rest hsplit
      have hlength : done.length < T.newMaterializedViews.length := by
        rw [hsplit]
        simp
      refine (newMaterializedView_accounted
        (L := { L with
          spent := L.spent + done.length
          newIds := (rows.map (·.id)).filter (scope.env.snapshot.nextCatalogId ≤ ·)
          tables := (done.map (·.id)).reverse ++ L.tables })
        (by dsimp only; omega) hold hschema ?_).mono (fun s hs => hs) ?_
      · intro id hid
        rcases hrefs id hid with h | h | h
        · exact .inl h
        · exact .inr (.tail _ (List.mem_append_right _ h))
        · rw [List.map_append, List.mem_append] at h
          rcases h with h | h
          · exact .inr (.tail _ (List.mem_append_left _ (List.mem_reverse.2 h)))
          · rw [List.mem_singleton.1 h]
            exact .inr (.head _)
      · intro row s hs
        refine ⟨?_, forall_mem_concat hrows hs.2⟩
        simpa [← Nat.add_assoc] using hs.1
    · intro s hs
      exact ⟨hs.permute (.of_eq hL), by simp⟩
    · intro rows s hs
      refine ⟨hs.1.narrow (Nat.le_refl _) (.refl _) (.refl _) (List.Subset.refl _) ?_
        (List.Subset.refl _) (List.Subset.refl _), hs.2⟩
      intro id hid
      simpa using hid
  refine hloop.bind fun rows => .pull fun hrows => ?_
  refine emitIf_newIds hL (fun _ _ _ => hrows) rfl rfl fun hempty => ?_
  have hnone : rows = [] := by simpa using hempty
  rw [hnone]
  rfl

theorem writeMaterializedViewRefreshes_accounted
    (hrefreshes : ∀ refresh ∈ T.refreshedMaterializedViews,
      IsCommitted refresh.viewId ∨ refresh.viewId ∈ L.tables) :
    Yields (Accounted.At scope L) (writeMaterializedViewRefreshes T) fun _ =>
      Accounted.At scope L := by
  unfold writeMaterializedViewRefreshes
  refine (getCommitState_accounted (p := fun state => ∀ refresh ∈ T.refreshedMaterializedViews,
    IsCommitted (state.getTableId refresh.viewId)) ?_).bind fun state => .pull fun hstate => ?_
  · exact fun s hs refresh hrefresh => hs.getTableId (hrefreshes refresh hrefresh)
  dsimp only
  have hrows : ∀ row ∈ T.refreshedMaterializedViews.map fun refresh =>
      { refresh with viewId := state.getTableId refresh.viewId }, IsCommitted row.viewId := by
    intro row hrow
    obtain ⟨refresh, hrefresh, rfl⟩ := List.mem_map.1 hrow
    exact hstate refresh hrefresh
  refine (Yields.forM _ fun refresh _ => store_accounted).bind fun _ => ?_
  refine .bind (emitIf_plain (fun _ _ _ => hrows) (fun _ => rfl) rfl) fun _ => ?_
  exact emitIf_plain (fun _ _ _ => hrows) (fun _ => rfl) rfl

/-! ### Macros and procedures -/

theorem newMacro_accounted {entry : MacroEntry} (hroom : L.spent < scope.limit)
    (hschema : IsCommitted entry.schema.schemaId ∨ entry.schema.schemaId ∈ L.schemas) :
    Yields (Accounted.At scope L) (newMacro entry) fun row s =>
      Accounted.At scope
        { L with spent := L.spent + 1, newIds := L.newIds ++ [row.macroId] } s ∧
      (IsCommitted row.macroId ∧ IsCommitted row.schemaId) := by
  unfold newMacro
  refine (nextCatalogId_accounted hroom).bind fun id => .pull fun hid => ?_
  refine .bind (getSchemaId_accounted (by exact hschema)) fun schemaId => .pull fun hschemaId => ?_
  exact .pure fun s hs => ⟨hs, hid.1, hschemaId⟩

theorem newProcedure_accounted {entry : DuckLakeProcedureEntry} (hroom : L.spent < scope.limit)
    (hschema : IsCommitted entry.schema.schemaId ∨ entry.schema.schemaId ∈ L.schemas) :
    Yields (Accounted.At scope L) (newProcedure entry) fun row s =>
      Accounted.At scope
        { L with spent := L.spent + 1, newIds := L.newIds ++ [row.procedureId] } s ∧
      (IsCommitted row.procedureId ∧ IsCommitted row.schemaId) := by
  unfold newProcedure
  refine (nextCatalogId_accounted hroom).bind fun id => .pull fun hid => ?_
  refine .bind (getSchemaId_accounted (by exact hschema)) fun schemaId => .pull fun hschemaId => ?_
  exact .pure fun s hs => ⟨hs, hid.1, hschemaId⟩

/-- A loop that takes an id for every row. -/
theorem mapM_newIds {α β : Type} {f : α → CommitM β} {l : List α} {id : β → Idx} {P : β → Prop}
    (hL : L.newIds = []) (hroom : L.spent + l.length ≤ scope.limit)
    (hstep : ∀ a ∈ l, ∀ M : Ledger, M.spent < scope.limit → M.schemas = L.schemas →
      Yields (Accounted.At scope M) (f a) fun b s =>
        Accounted.At scope { M with spent := M.spent + 1, newIds := M.newIds ++ [id b] } s ∧ P b) :
    Yields (Accounted.At scope L) (l.mapM f) fun rows s =>
      Accounted.At scope { L with spent := L.spent + l.length, newIds := rows.map id } s ∧
      (rows.length = l.length ∧ ∀ row ∈ rows, P row) := by
  refine (Yields.mapM (fun (done : List α) (rows : List β) s =>
    Accounted.At scope { L with spent := L.spent + done.length, newIds := rows.map id } s ∧
      (rows.length = done.length ∧ ∀ row ∈ rows, P row)) ?_).mono ?_ fun rows s hs => hs
  · intro done a rest rows hsplit
    refine .pull fun hrows => ?_
    obtain ⟨hsame, hrows⟩ := hrows
    have hlength : done.length < l.length := by
      rw [hsplit]
      simp
    refine (hstep a (by simp [hsplit])
      { L with spent := L.spent + done.length, newIds := rows.map id } (by dsimp only; omega)
      rfl).mono (fun s hs => hs) fun row s hs =>
        ⟨?_, by simp [hsame], forall_mem_concat hrows hs.2⟩
    simpa [← Nat.add_assoc] using hs.1
  · intro s hs
    exact ⟨hs.permute (.of_eq hL), rfl, by simp⟩

theorem writeNewMacros_accounted (hL : L.newIds = [])
    (hmacros : ∀ entry ∈ T.stagedMacros,
      IsCommitted entry.schema.schemaId ∨ entry.schema.schemaId ∈ L.schemas)
    (hroom : L.spent + T.stagedMacros.length ≤ scope.limit) :
    Yields (Accounted.At scope L) (writeNewMacros T) fun _ =>
      Accounted.At scope { L with spent := L.spent + T.stagedMacros.length } := by
  unfold writeNewMacros
  refine (mapM_newIds hL hroom fun entry hentry M hspent hschemas =>
    newMacro_accounted hspent (by rw [hschemas]; exact hmacros entry hentry)).bind fun rows =>
    .pull fun hrows => ?_
  refine emitIf_newIds hL (fun _ _ _ => hrows.2) rfl rfl fun hempty => ?_
  have hnone : T.stagedMacros = [] := by
    rw [StagedTransaction.stagedMacros]
    simp only [Bool.not_eq_false', Bool.and_eq_true, List.isEmpty_iff] at hempty
    rw [hempty.1, hempty.2]
    rfl
  rw [hnone, List.length_nil, List.length_eq_zero_iff] at hrows
  rw [hrows.1]
  rfl

theorem writeNewProcedures_accounted (hL : L.newIds = [])
    (hprocedures : ∀ entry ∈ T.stagedProcedures,
      IsCommitted entry.schema.schemaId ∨ entry.schema.schemaId ∈ L.schemas)
    (hroom : L.spent + T.stagedProcedures.length ≤ scope.limit) :
    Yields (Accounted.At scope L) (writeNewProcedures T) fun _ =>
      Accounted.At scope { L with spent := L.spent + T.stagedProcedures.length } := by
  unfold writeNewProcedures
  refine (mapM_newIds hL hroom fun entry hentry M hspent hschemas =>
    newProcedure_accounted hspent (by rw [hschemas]; exact hprocedures entry hentry)).bind
    fun rows => .pull fun hrows => ?_
  refine emitIf_newIds hL (fun _ _ _ => hrows.2) rfl rfl fun hempty => ?_
  have hnone : T.stagedProcedures = [] := by
    rw [StagedTransaction.stagedProcedures]
    simp only [Bool.not_eq_false', List.isEmpty_iff] at hempty
    rw [hempty]
    rfl
  rw [hnone, List.length_nil, List.length_eq_zero_iff] at hrows
  rw [hrows.1]
  rfl

/-! ## Files -/

theorem newNameMap_accounted (entry : MappingIndex × DuckLakeNameMap) :
    Yields (Accounted.At scope L) (newNameMap entry) fun row s =>
      Accounted.At scope { L with
        newFiles := L.newFiles ++ [row.mappingId]
        held := L.held ++ [row.mappingId]
        mappings := entry.1 :: L.mappings } s ∧ IsCommitted row.tableId := by
  unfold newNameMap
  refine nextFileId_accounted.bind fun id => ?_
  refine getTableId_ensured fun t ht => ?_
  refine .bind (setMappingIndex_accounted (by simp)) fun _ => .pure fun s hs => ⟨?_, ht⟩
  exact hs.narrow (Nat.le_refl _) (.refl _) (.refl _) (List.Subset.refl _)
    (List.subset_cons_self _ _) (List.Subset.refl _) (List.Subset.refl _)

theorem writeNewNameMaps_accounted (hL : L.newFiles = []) :
    Yields (Accounted.At scope L) (writeNewNameMaps T) fun _ =>
      Accounted.At scope { L with mappings := T.newNameMaps.map (·.1) ++ L.mappings } := by
  unfold writeNewNameMaps
  have hloop : Yields (Accounted.At scope L) (T.newNameMaps.mapM newNameMap) fun rows s =>
      Accounted.At scope { L with
        newFiles := rows.map (·.mappingId)
        held := L.held ++ rows.map (·.mappingId)
        mappings := T.newNameMaps.map (·.1) ++ L.mappings } s ∧
      ∀ row ∈ rows, IsCommitted row.tableId := by
    refine (Yields.mapM (fun (done : List (MappingIndex × DuckLakeNameMap))
      (rows : List DuckLakeColumnMappingInfo) s => Accounted.At scope { L with
        newFiles := rows.map (·.mappingId)
        held := L.held ++ rows.map (·.mappingId)
        mappings := (done.map (·.1)).reverse ++ L.mappings } s ∧
      ∀ row ∈ rows, IsCommitted row.tableId) ?_).mono ?_ ?_
    · intro done entry rest rows _
      refine .pull fun hrows => ?_
      refine (newNameMap_accounted entry).mono (fun s hs => hs) fun row s hs =>
        ⟨?_, forall_mem_concat hrows hs.2⟩
      simpa using hs.1
    · intro s hs
      refine ⟨?_, by simp⟩
      exact hs.narrow (Nat.le_refl _) (.refl _) (.of_eq hL) (by simp) (List.Subset.refl _)
        (List.Subset.refl _) (by simp)
    · intro rows s hs
      refine ⟨hs.1.narrow (Nat.le_refl _) (.refl _) (.refl _) (List.Subset.refl _)
        (List.Subset.refl _) (List.Subset.refl _) ?_, hs.2⟩
      intro id hid
      simpa using hid
  refine hloop.bind fun rows => .pull fun hrows => ?_
  refine (emitIf_accounted L.newIds [] ?_ ?_ (.refl _) ?_).mono (fun s hs => hs) fun _ s hs => ?_
  · intro next _ hheld row hrow
    refine ⟨hrows row hrow, hheld _ ?_⟩
    exact List.mem_append_right _ (List.mem_map_of_mem hrow)
  · simp [Statement.newCatalogIds]
  · intro hempty
    have hnone : rows = [] := by simpa using hempty
    subst hnone
    exact ⟨rfl, rfl⟩
  · exact hs.narrow (Nat.le_refl _) (.refl _) (.of_eq hL.symm) (List.subset_append_left _ _)
      (List.Subset.refl _) (List.Subset.refl _) (List.Subset.refl _)

/-! ### Data files -/

/-- The file ids that the row of a data file has. -/
def DuckLakeFileInfo.fileIds (row : DuckLakeFileInfo) : List DataFileIndex :=
  row.id :: row.mappingId.toList

/-- The rows of data files, with their ids in hand. -/
def Filed (scope : IdScope) (L : Ledger) (rows : List DuckLakeFileInfo) (s : CommitAttempt) : Prop :=
  Accounted.At scope { L with
    newFiles := rows.map (·.id)
    held := L.held ++ rows.flatMap (·.fileIds) } s ∧
  ∀ row ∈ rows, IsCommitted row.tableId ∧ ∀ id ∈ row.partitionId, IsCommitted id

theorem remapMappingIndex_lt {s : CommitAttempt} (h : Accounted.At scope L s)
    {mapping : Option MappingIndex}
    (hmapping : ∀ id ∈ mapping, id < scope.env.snapshot.nextFileId ∨ id ∈ L.mappings) :
    ∀ id ∈ s.commitState.remapMappingIndex mapping, id < s.commitSnapshot.nextFileId := by
  intro id hid
  obtain ⟨old, hold, rfl⟩ := Option.map_eq_some_iff.1 hid
  rcases hmapping old hold with hlt | hmem
  · have hle := h.newFiles.le
    exact getD_lookup (P := (· < s.commitSnapshot.nextFileId)) h.mappingValues (hlt.trans_le hle)
  · exact h.mappings old hmem

/-- A file takes a new id. -/
theorem getNewDataFile_filed {file : DuckLakeDataFile} {tableId : TableIndex}
    {rows : List DuckLakeFileInfo} (htable : IsCommitted tableId)
    (hmapping : ∀ id ∈ file.mappingId, id < scope.env.snapshot.nextFileId ∨ id ∈ L.mappings)
    (rowIdStart : Option Nat) :
    Yields (Filed scope L rows) (getNewDataFile file tableId rowIdStart) fun row =>
      Filed scope L (rows ++ [row]) := by
  unfold getNewDataFile
  refine .pull fun hrows => ?_
  refine nextFileId_accounted.bind fun id => ?_
  have hstate : Yields (Accounted.At scope { L with
      newFiles := rows.map (·.id) ++ [id]
      held := L.held ++ rows.flatMap (·.fileIds) ++ [id] }) getCommitState fun state =>
      Accounted.At scope { L with
        newFiles := rows.map (·.id) ++ [id]
        held := L.held ++ rows.flatMap (·.fileIds) ++
          (id :: (state.remapMappingIndex file.mappingId).toList) } := by
    intro s hs state s' hrun
    cases hrun
    refine { hs with held := fun id' hid' => ?_ }
    simp only [List.mem_append, List.mem_cons, Option.mem_toList] at hid'
    rcases hid' with (h | h) | rfl | h
    · exact hs.held id' (by simp [h])
    · exact hs.held id' (List.mem_append_left _ (List.mem_append_right _ h))
    · exact hs.held id' (by simp)
    · exact remapMappingIndex_lt hs hmapping id' h
  refine hstate.bind fun state => ?_
  dsimp only
  refine ensure_yields.bind fun _ => .pull fun hpartition => .pure fun s hs => ⟨?_, ?_⟩
  · refine hs.narrow (Nat.le_refl _) (.refl _) ?_ ?_ (List.Subset.refl _) (List.Subset.refl _)
      (List.Subset.refl _)
    · simp [buildDataFileInfo]
    · simp [DuckLakeFileInfo.fileIds, buildDataFileInfo]
  · refine forall_mem_concat hrows ⟨htable, fun id' hid' => ?_⟩
    have hid' : state.remapPartitionId file.partitionId = some id' := hid'
    simpa [hid', IsCommitted] using hpartition

theorem writeDataFiles_filed {rows : List DuckLakeFileInfo} (hL : L.newFiles = [])
    (written : WrittenEntries) :
    Yields (Filed scope L rows) (writeDataFiles scope.env written rows) fun _ =>
      Accounted.At scope { L with held := L.held ++ rows.flatMap (·.fileIds) } := by
  unfold writeDataFiles
  refine .pull fun hrows => ?_
  refine mapM_path.bind fun rows' => .pull fun hsame => ?_
  have hmem : ∀ row ∈ rows', row.1 ∈ rows := by
    intro row hrow
    rw [← hsame]
    exact List.mem_map_of_mem hrow
  have hids : rows.map (·.id) = rows'.map (·.1.id) := by
    rw [← hsame, List.map_map]
    rfl
  refine (emitIf_accounted L.newIds [] ?_ ?_ (.of_eq hids) ?_).mono (fun s hs => hs)
    fun _ s hs => ?_
  · intro next _ hheld row hrow
    have hfiles : ∀ id ∈ row.1.fileIds, id < next := by
      intro id hid
      exact hheld id (List.mem_append_right _ (List.mem_flatMap.2 ⟨row.1, hmem row hrow, hid⟩))
    obtain ⟨htable, hpartition⟩ := hrows row.1 (hmem row hrow)
    refine ⟨htable, hpartition, hfiles _ (.head _), fun id hid => hfiles id (.tail _ ?_)⟩
    exact Option.mem_toList.2 hid
  · simp [Statement.newCatalogIds]
  · intro hempty
    have hnone : rows = [] := by simpa using hempty
    rw [hnone, List.map_eq_nil_iff] at hsame
    subst hsame
    exact ⟨rfl, rfl⟩
  · exact hs.narrow (Nat.le_refl _) (.refl _) (.of_eq hL.symm) (List.Subset.refl _)
      (List.Subset.refl _) (List.Subset.refl _) (List.Subset.refl _)

/-! ### The data of a table -/

variable [StatsMerge]

omit [StatsMerge] in
theorem applyDroppedFileStats_accounted (tableId : TableIndex) (stats : DuckLakeTableStats) :
    Yields (Accounted.At scope L) (applyDroppedFileStats tableId stats) fun _ =>
      Accounted.At scope L := by
  unfold applyDroppedFileStats
  refine (Yields.get (Q := fun _ => Accounted.At scope L) fun s hs => hs).bind fun s₀ => ?_
  cases s₀.droppedFileStats.lookup tableId with
  | none => exact .pure fun s hs => hs
  | some dropped =>
    dsimp only
    refine ofExcept_accounted.bind fun applied => .pull fun _ => ?_
    refine (Yields.modify fun s hs => ?_).bind fun _ => .pure fun s hs => hs
    exact { hs with dropped := fun e he => hs.dropped e (List.mem_filter.1 he).1 }

omit [StatsMerge] in
theorem writeTableStats_accounted {tableId : TableIndex} (htable : IsCommitted tableId)
    (stats : DuckLakeTableStats) (initialized clear : Bool) :
    Yields (Accounted.At scope L) (writeTableStats tableId stats initialized clear) fun _ =>
      Accounted.At scope L := by
  unfold writeTableStats
  dsimp only
  refine .bind (emit_plain (fun _ _ _ => htable) (fun _ => rfl) rfl) fun _ => ?_
  exact emitIf_plain (fun _ _ _ => htable) (fun _ => rfl) rfl

/-- The files of a table, on top of the files of the tables before. -/
def TableFiles.Filed (scope : IdScope) (L : Ledger) (rows : List DuckLakeFileInfo)
    (files : TableFiles) (s : CommitAttempt) : Prop :=
  DuckLake.Filed scope L (rows ++ files.files) s ∧
    ∀ file ∈ files.deleteFiles, file.dataFileId ∈ (rows ++ files.files).map (·.id)

theorem newDataFileStep_filed {tableId : TableIndex} {rows : List DuckLakeFileInfo}
    {files : TableFiles} {file : DuckLakeDataFile} (htable : IsCommitted tableId)
    (hmapping : ∀ id ∈ file.mappingId, id < scope.env.snapshot.nextFileId ∨ id ∈ L.mappings) :
    Yields (TableFiles.Filed scope L rows files) (newDataFileStep tableId files file)
      (TableFiles.Filed scope L rows) := by
  unfold newDataFileStep
  refine .pull fun hdeletes => ?_
  dsimp only
  refine (getNewDataFile_filed htable hmapping _).bind fun row => .pure fun s hs => ?_
  refine ⟨by simpa using hs, List.forall_mem_append.2 ⟨fun file hfile => ?_, fun file hfile => ?_⟩⟩
  · have hmem := hdeletes file hfile
    rw [← List.append_assoc, List.map_append]
    exact List.mem_append_left _ hmem
  · obtain ⟨file', -, rfl⟩ := List.mem_map.1 hfile
    simp

theorem newInlinedRows_filed {tableId : TableIndex} {rows : List DuckLakeFileInfo}
    (htable : IsCommitted tableId) (c : LocalTableDataChanges) (stats : DuckLakeTableStats) :
    Yields (Filed scope L rows) (newInlinedRows tableId c stats) fun inlined s =>
      Filed scope L rows s ∧ ∀ data ∈ inlined.2, IsCommitted data.tableId := by
  unfold newInlinedRows
  split
  · exact .pure fun s hs => ⟨hs, by simp⟩
  · refine .pull fun hrows => ?_
    refine (runIf_accounted skipFileId_accounted).bind fun _ => .pure fun s hs => ⟨⟨hs, hrows⟩, ?_⟩
    simpa using htable

/-- The data of one table. From here on its id is known to be replaced. -/
theorem newTableData_filed {acc : NewDataInfo} {entry : TableIndex × LocalTableDataChanges}
    (hacc : ∀ data ∈ acc.newInlinedData, IsCommitted data.tableId)
    (hmappings : ∀ file ∈ entry.2.newDataFiles, ∀ id ∈ file.mappingId,
      id < scope.env.snapshot.nextFileId ∨ id ∈ L.mappings) (env : CommitEnvironment) :
    Yields (Filed scope L acc.newFiles) (newTableData env acc entry) fun acc' s =>
      Filed scope { L with tables := entry.1 :: L.tables } acc'.newFiles s ∧
      ∀ data ∈ acc'.newInlinedData, IsCommitted data.tableId := by
  unfold newTableData
  refine .pull fun hrows => ?_
  refine getTableId_ensured fun t ht => ?_
  dsimp only
  refine .ite (fun _ => .pure fun s hs => ⟨⟨hs, hrows⟩, hacc⟩) fun _ => ?_
  refine ofExcept_accounted.bind fun current => .pull fun _ => ?_
  refine (applyDroppedFileStats_accounted t _).bind fun applied => ?_
  have hfiles : Yields (Filed scope { L with tables := entry.1 :: L.tables } acc.newFiles)
      (entry.2.newDataFiles.foldlM (newDataFileStep t) { stats := applied.2 })
      (TableFiles.Filed scope { L with tables := entry.1 :: L.tables } acc.newFiles) := by
    refine (Yields.foldlM (fun _ => TableFiles.Filed scope _ acc.newFiles) ?_).mono
      (fun s hs => ⟨by simpa using hs, by simp⟩) fun _ _ hs => hs
    intro done file rest files hsplit
    exact newDataFileStep_filed ht (hmappings file (by simp [hsplit]))
  refine (hfiles.mono (fun s hs => ⟨hs, hrows⟩) fun _ _ hs => hs).bind fun files =>
    .pull fun hdeletes => .pull fun hall => ?_
  refine .bind (setLocalDeleteFiles_accounted ht fun file hfile => ?_) fun _ => ?_
  · obtain ⟨row, hrow, hid⟩ := List.mem_map.1 (hdeletes file hfile)
    refine List.mem_append_right _ (List.mem_flatMap.2 ⟨row, hrow, ?_⟩)
    rw [← hid]
    exact .head _
  refine ((newInlinedRows_filed ht entry.2 files.stats).mono (fun s hs => ⟨hs, hall⟩)
    fun _ _ hs => hs).bind fun inlined => .pull fun hinlined => .pull fun _ => ?_
  refine (writeTableStats_accounted ht _ _ _).bind fun _ => .pure fun s hs => ⟨⟨hs, hall⟩, ?_⟩
  exact List.forall_mem_append.2 ⟨hacc, hinlined⟩

theorem getNewDataFiles_filed
    (hmappings : ∀ entry ∈ T.localChanges.changes, ∀ file ∈ entry.2.newDataFiles,
      ∀ id ∈ file.mappingId, id < scope.env.snapshot.nextFileId ∨ id ∈ L.mappings)
    (hL : L.newFiles = []) (env : CommitEnvironment) :
    Yields (Accounted.At scope L) (getNewDataFiles env T) fun data s =>
      Filed scope { L with tables := T.localChanges.changes.map (·.1) ++ L.tables }
        data.newFiles s ∧ ∀ row ∈ data.newInlinedData, IsCommitted row.tableId := by
  unfold getNewDataFiles
  refine (Yields.foldlM (fun (done : List (TableIndex × LocalTableDataChanges))
    (data : NewDataInfo) s => Filed scope
      { L with tables := (done.map (·.1)).reverse ++ L.tables } data.newFiles s ∧
      ∀ row ∈ data.newInlinedData, IsCommitted row.tableId) ?_).mono ?_ ?_
  · intro done entry rest data hsplit
    refine .pull fun hdata => ?_
    refine (newTableData_filed
      (L := { L with tables := (done.map (·.1)).reverse ++ L.tables }) hdata
      (hmappings entry (by simp [hsplit])) env).mono (fun s hs => hs) fun data' s hs => ⟨?_, hs.2⟩
    simpa using hs.1
  · intro s hs
    refine ⟨⟨?_, by simp⟩, by simp⟩
    exact hs.narrow (Nat.le_refl _) (.refl _) (.of_eq hL) (by simp) (List.Subset.refl _)
      (List.Subset.refl _) (List.Subset.refl _)
  · intro data s hs
    refine ⟨⟨hs.1.1.narrow (Nat.le_refl _) (.refl _) (.refl _) (List.Subset.refl _) ?_
      (List.Subset.refl _) (List.Subset.refl _), hs.1.2⟩, hs.2⟩
    intro id hid
    simpa using hid

theorem writeNewData_accounted
    (hmappings : ∀ entry ∈ T.localChanges.changes, ∀ file ∈ entry.2.newDataFiles,
      ∀ id ∈ file.mappingId, id < scope.env.snapshot.nextFileId ∨ id ∈ L.mappings)
    (hL : L.newFiles = []) (written : WrittenEntries) :
    Yields (Accounted.At scope L) (writeNewData scope.env T written) fun _ =>
      Accounted.At scope { L with tables := T.localChanges.changes.map (·.1) ++ L.tables } := by
  unfold writeNewData
  refine (getNewDataFiles_filed hmappings hL scope.env).bind fun data => .pull fun hdata => ?_
  refine .bind (writeDataFiles_filed (by exact hL) written) fun _ => ?_
  refine getCommitSnapshot_accounted.bind fun snapshot => ?_
  refine ofExcept_accounted.bind fun inlined => .pull fun hrows => ?_
  refine (newSchemaVersions_accounted inlined.2).bind fun _ => ?_
  refine .mono (emit_plain (fun _ _ _ => ⟨_, _, _, _, _, hrows, hdata⟩) (fun _ => rfl) rfl)
    (fun s hs => hs)
    fun _ s hs => ?_
  exact hs.narrow (Nat.le_refl _) (.refl _) (.refl _) (List.subset_append_left _ _)
    (List.Subset.refl _) (List.Subset.refl _) (List.Subset.refl _)

omit [StatsMerge] in
theorem updateDroppedTableStats_accounted {tableId : TableIndex} (htable : IsCommitted tableId)
    (env : CommitEnvironment) :
    Yields (Accounted.At scope L) (updateDroppedTableStats env tableId) fun _ =>
      Accounted.At scope L := by
  unfold updateDroppedTableStats
  refine ofExcept_accounted.bind fun current => .pull fun _ => ?_
  cases current with
  | none => exact .ofExcept fun s _ hs _ => hs
  | some stats =>
    dsimp only
    refine (applyDroppedFileStats_accounted tableId stats).bind fun applied => ?_
    exact writeTableStats_accounted htable _ _ _

omit [StatsMerge] in
theorem writeDroppedFiles_accounted
    (hfiles : ∀ file ∈ T.droppedFiles, file.2 < scope.env.snapshot.nextFileId)
    (env : CommitEnvironment) :
    Yields (Accounted.At scope L) (writeDroppedFiles env T) fun _ => Accounted.At scope L := by
  unfold writeDroppedFiles
  refine runIf_accounted
    (.bind (emit_plain (fun next hnext _ id hid => ?_) (fun _ => rfl) rfl) fun _ => ?_)
  · obtain ⟨file, hfile, rfl⟩ := List.mem_map.1 (OrdSet.mem_ofList.1 hid)
    exact (hfiles file hfile).trans_le hnext
  · unfold updateStatsForDroppedFiles
    refine (Yields.get (Q := fun s₀ s => Accounted.At scope L s ∧
      ∀ e ∈ s₀.droppedFileStats, IsCommitted e.1) fun s hs => ⟨hs, hs.dropped⟩).bind fun s₀ =>
      .pull fun hdropped => ?_
    dsimp only
    refine .forM _ fun tableId htable => ?_
    obtain ⟨e, he, rfl⟩ := List.mem_map.1 htable
    exact updateDroppedTableStats_accounted (hdropped e he) env

/-! ### Deletes -/

omit [StatsMerge] in
/-- The file ids that the row of a delete file has. -/
def DuckLakeDeleteFileInfo.fileIds (row : DuckLakeDeleteFileInfo) : List DataFileIndex :=
  [row.id, row.dataFileId]

omit [StatsMerge] in
/-- The rows of delete files, with their ids in hand. -/
def DeleteFiled (scope : IdScope) (L : Ledger) (rows : List DuckLakeDeleteFileInfo)
    (s : CommitAttempt) : Prop :=
  Accounted.At scope { L with
    newFiles := rows.map (·.id)
    held := L.held ++ rows.flatMap (·.fileIds) } s ∧ ∀ row ∈ rows, IsCommitted row.tableId

omit [StatsMerge] in
theorem getNewDeleteFile_filed {tableId : TableIndex} {file : DuckLakeDeleteFile}
    {rows : List DuckLakeDeleteFileInfo} (htable : IsCommitted tableId)
    (hfile : file.dataFileId < scope.env.snapshot.nextFileId ∨ file.dataFileId ∈ L.held) :
    Yields (DeleteFiled scope L rows) (getNewDeleteFile tableId file) fun row =>
      DeleteFiled scope L (rows ++ [row]) := by
  unfold getNewDeleteFile
  refine .pull fun hrows => ?_
  refine nextFileId_accounted.bind fun id => .pure fun s hs => ⟨?_, forall_mem_concat hrows htable⟩
  refine { hs with newFiles := ?_, held := fun id' hid' => ?_ }
  · simpa using hs.newFiles
  · have hdata : file.dataFileId < s.commitSnapshot.nextFileId := by
      rcases hfile with h | h
      · exact h.trans_le hs.newFiles.le
      · exact hs.held _ (List.mem_append_left _ (List.mem_append_left _ h))
    simp only [List.flatMap_append, List.flatMap_cons, List.flatMap_nil, List.append_nil,
      DuckLakeDeleteFileInfo.fileIds, List.mem_append, List.mem_cons, List.not_mem_nil,
      or_false] at hid'
    rcases hid' with h | h | rfl | rfl
    · exact hs.held id' (by simp [h])
    · exact hs.held id' (List.mem_append_left _ (List.mem_append_right _ h))
    · exact hs.held id' (by simp)
    · exact hdata

omit [StatsMerge] in
theorem mapM_getNewDeleteFile_filed {tableId : TableIndex} {files : List DuckLakeDeleteFile}
    {rows : List DuckLakeDeleteFileInfo} (htable : IsCommitted tableId)
    (hfiles : ∀ file ∈ files,
      file.dataFileId < scope.env.snapshot.nextFileId ∨ file.dataFileId ∈ L.held) :
    Yields (DeleteFiled scope L rows) (files.mapM (getNewDeleteFile tableId)) fun new =>
      DeleteFiled scope L (rows ++ new) := by
  refine (Yields.mapM (fun _ new => DeleteFiled scope L (rows ++ new)) ?_).mono
    (fun s hs => by simpa using hs) fun _ _ hs => hs
  intro done file rest new hsplit
  refine (getNewDeleteFile_filed htable (hfiles file (by simp [hsplit]))).mono (fun s hs => hs)
    fun row s hs => ?_
  rwa [List.append_assoc] at hs

omit [StatsMerge] in
theorem newTableDeletes_filed {entry : TableIndex × LocalTableDataChanges}
    {rows : List DuckLakeDeleteFileInfo} (hx : entry.1 ∈ L.tables)
    (hfiles : ∀ file ∈ entry.2.newDeleteFiles.flatMap (·.2),
      file.dataFileId < scope.env.snapshot.nextFileId) :
    Yields (DeleteFiled scope L rows) (newTableDeletes entry) fun new =>
      DeleteFiled scope L (rows ++ new) := by
  unfold newTableDeletes
  refine .pull fun hrows => ?_
  refine .bind (getTableId_accounted (.inr hx)) fun t => .pull fun ht => ?_
  refine (mapM_getNewDeleteFile_filed ht fun file hfile => .inl (hfiles file hfile)).mono
    (fun s hs => ⟨hs, hrows⟩) fun _ _ hs => hs

omit [StatsMerge] in
theorem newLocalDeletes_filed {entry : TableIndex × List DuckLakeDeleteFile}
    {rows : List DuckLakeDeleteFileInfo} (hx : IsCommitted entry.1)
    (hfiles : ∀ file ∈ entry.2, file.dataFileId ∈ L.held) :
    Yields (DeleteFiled scope L rows) (newLocalDeletes entry) fun new =>
      DeleteFiled scope L (rows ++ new) := by
  unfold newLocalDeletes
  refine .pull fun hrows => ?_
  refine .bind (getTableId_accounted (.inl hx)) fun t => .pull fun ht => ?_
  refine ensure_yields.bind fun _ => .pull fun _ => ?_
  refine (mapM_getNewDeleteFile_filed ht fun file hfile => .inr (hfiles file hfile)).mono
    (fun s hs => ⟨hs, hrows⟩) fun _ _ hs => hs

omit [StatsMerge] in
/-- A loop over tables that collects rows of delete files. -/
theorem mapM_deletes_filed {α : Type} {f : α → CommitM (List DuckLakeDeleteFileInfo)} {l : List α}
    (rows : List DuckLakeDeleteFileInfo)
    (hstep : ∀ a ∈ l, ∀ rows, Yields (DeleteFiled scope L rows) (f a) fun new =>
      DeleteFiled scope L (rows ++ new)) :
    Yields (DeleteFiled scope L rows) (l.mapM f) fun new =>
      DeleteFiled scope L (rows ++ new.flatten) := by
  refine (Yields.mapM (fun _ new => DeleteFiled scope L (rows ++ new.flatten)) ?_).mono
    (fun s hs => by simpa using hs) fun _ _ hs => hs
  intro done a rest new hsplit
  refine (hstep a (by simp [hsplit]) _).mono (fun s hs => hs) fun more s hs => ?_
  simpa using hs

omit [StatsMerge] in
theorem getNewDeleteFiles_filed (hL : L.newFiles = [])
    (htables : ∀ entry ∈ T.localChanges.changes, entry.1 ∈ L.tables)
    (hfiles : ∀ entry ∈ T.localChanges.changes, ∀ file ∈ entry.2.newDeleteFiles.flatMap (·.2),
      file.dataFileId < scope.env.snapshot.nextFileId) :
    Yields (Accounted.At scope L) (getNewDeleteFiles T) fun rows s =>
      ∃ held, DeleteFiled scope { L with held := L.held ++ held } rows s := by
  unfold getNewDeleteFiles
  have hdeletes : Yields (Accounted.At scope L) (T.localChanges.changes.mapM newTableDeletes)
      fun new => DeleteFiled scope L new.flatten := by
    refine (mapM_deletes_filed (L := L) [] fun entry hentry rows =>
      newTableDeletes_filed (htables entry hentry) (hfiles entry hentry)).mono (fun s hs => ?_)
      fun _ _ hs => hs
    refine ⟨hs.narrow (Nat.le_refl _) (.refl _) (.of_eq hL) (by simp) (List.Subset.refl _)
      (List.Subset.refl _) (List.Subset.refl _), by simp⟩
  refine hdeletes.bind fun files => .pull fun hrows => ?_
  -- the data files of local deletes have their ids by now
  have hstate : Yields (Accounted.At scope { L with
      newFiles := files.flatten.map (·.id)
      held := L.held ++ files.flatten.flatMap (·.fileIds) }) getCommitState fun state s =>
      DeleteFiled scope { L with
        held := L.held ++ state.localDeleteFiles.flatMap (·.2.map (·.dataFileId)) }
        files.flatten s ∧ ∀ entry ∈ state.localDeleteFiles, IsCommitted entry.1 := by
    intro s hs state s' hrun
    cases hrun
    refine ⟨⟨{ hs with held := fun id hid => ?_ }, hrows⟩, fun e he => (hs.localDeletes e he).1⟩
    simp only [List.mem_append] at hid
    rcases hid with (h | h) | h
    · exact hs.held id (List.mem_append_left _ h)
    · obtain ⟨entry, hentry, hid⟩ := List.mem_flatMap.1 h
      obtain ⟨file, hfile, rfl⟩ := List.mem_map.1 hid
      exact (hs.localDeletes entry hentry).2 file hfile
    · exact hs.held id (List.mem_append_right _ h)
  refine hstate.bind fun state => .pull fun hlocal => ?_
  refine .bind (mapM_deletes_filed _ fun entry hentry rows =>
    newLocalDeletes_filed (hlocal entry hentry) fun file hfile => ?_) fun localFiles =>
    .pure fun s hs => ⟨_, hs⟩
  refine List.mem_append_right _ (List.mem_flatMap.2 ⟨entry, hentry, ?_⟩)
  exact List.mem_map_of_mem hfile

omit [StatsMerge] in
theorem writeNewDeleteFiles_accounted (hL : L.newFiles = [])
    (htables : ∀ entry ∈ T.localChanges.changes, entry.1 ∈ L.tables)
    (hfiles : ∀ entry ∈ T.localChanges.changes, ∀ file ∈ entry.2.newDeleteFiles.flatMap (·.2),
      file.dataFileId < scope.env.snapshot.nextFileId ∧
      ∀ overwritten ∈ file.overwrittenDeleteFile,
        overwritten.deleteFileId < scope.env.snapshot.nextFileId) (written : WrittenEntries) :
    Yields (Accounted.At scope L) (writeNewDeleteFiles scope.env T written) fun _ =>
      Accounted.At scope L := by
  unfold writeNewDeleteFiles
  refine (getNewDeleteFiles_filed hL htables fun entry hentry file hfile =>
    (hfiles entry hentry file hfile).1).bind fun rows => .pullExists fun held => .pull fun hrows => ?_
  dsimp only
  refine .bind (emitIf_plain (fun next hnext _ row hrow => ?_) (fun _ => rfl) rfl) fun _ => ?_
  · obtain ⟨file, hfile, rfl⟩ := List.mem_map.1 hrow
    obtain ⟨entry, hentry, hfile⟩ := List.mem_flatMap.1 hfile
    obtain ⟨deleteFile, hdelete, hover⟩ := List.mem_filterMap.1 hfile
    exact ((hfiles entry hentry deleteFile hdelete).2 file hover).trans_le hnext
  refine mapM_path.bind fun rows' => .pull fun hsame => ?_
  have hmem : ∀ row ∈ rows', row.1 ∈ rows := by
    intro row hrow
    rw [← hsame]
    exact List.mem_map_of_mem hrow
  have hids : rows.map (·.id) = rows'.map (·.1.id) := by
    rw [← hsame, List.map_map]
    rfl
  refine .mono (emitIf_accounted L.newIds [] ?_ ?_ (.of_eq hids) ?_) (fun s hs => hs)
    fun _ s hs => ?_
  · intro next _ hheld row hrow
    have hrowFiles : ∀ id ∈ row.1.fileIds, id < next := by
      intro id hid
      exact hheld id (List.mem_append_right _ (List.mem_flatMap.2 ⟨row.1, hmem row hrow, hid⟩))
    exact ⟨hrows row.1 (hmem row hrow), hrowFiles _ (.head _), hrowFiles _ (.tail _ (.head _))⟩
  · simp [Statement.newCatalogIds]
  · intro hempty
    have hnone : rows = [] := by simpa using hempty
    rw [hnone, List.map_eq_nil_iff] at hsame
    subst hsame
    exact ⟨rfl, rfl⟩
  · exact hs.narrow (Nat.le_refl _) (.refl _) (.of_eq hL.symm)
      (List.subset_append_of_subset_left _ (List.subset_append_left _ _))
      (List.Subset.refl _) (List.Subset.refl _) (List.Subset.refl _)

omit [StatsMerge] in
/-- A loop over tables that collects rows of the table's own. -/
theorem mapM_rows_accounted {α β : Type} {f : α → CommitM (List β)} {l : List α} {P : β → Prop}
    (hstep : ∀ a ∈ l, Yields (Accounted.At scope L) (f a) fun rows s =>
      Accounted.At scope L s ∧ ∀ row ∈ rows, P row) :
    Yields (Accounted.At scope L) (l.mapM f) fun rows s =>
      Accounted.At scope L s ∧ ∀ row ∈ rows.flatten, P row := by
  refine (Yields.mapM (fun (_ : List α) (rows : List (List β)) s =>
    Accounted.At scope L s ∧ ∀ row ∈ rows.flatten, P row) ?_).mono
    (fun s hs => ⟨hs, by simp⟩) fun _ _ hs => hs
  intro done a rest rows hsplit
  refine .pull fun hrows => ?_
  refine (hstep a (by simp [hsplit])).mono (fun s hs => hs) fun new s hs => ⟨hs.1, ?_⟩
  rw [List.flatten_append, List.flatten_cons, List.flatten_nil, List.append_nil]
  exact List.forall_mem_append.2 ⟨hrows, hs.2⟩

omit [StatsMerge] in
theorem writeInlinedDeletes_accounted
    (htables : ∀ entry ∈ T.localChanges.changes, entry.1 ∈ L.tables)
    (hfiles : ∀ entry ∈ T.localChanges.changes, ∀ deletes ∈ entry.2.newInlinedFileDeletes,
      ∀ file ∈ deletes, file.1 < scope.env.snapshot.nextFileId) :
    Yields (Accounted.At scope L) (writeInlinedDeletes scope.env T) fun _ =>
      Accounted.At scope L := by
  unfold writeInlinedDeletes
  have hdeletes : Yields (Accounted.At scope L) (T.localChanges.changes.mapM newInlinedDeletes)
      fun rows s => Accounted.At scope L s ∧ ∀ row ∈ rows.flatten, IsCommitted row.tableId := by
    refine mapM_rows_accounted fun entry hentry => ?_
    unfold newInlinedDeletes
    refine (getTableId_accounted (.inr (htables entry hentry))).bind fun t => .pull fun ht => ?_
    refine .pure fun s hs => ⟨hs, fun row hrow => ?_⟩
    obtain ⟨deletes, -, rfl⟩ := List.mem_map.1 hrow
    exact ht
  have hfileDeletes : Yields (Accounted.At scope L)
      (T.localChanges.changes.mapM newInlinedFileDeletes) fun rows s => Accounted.At scope L s ∧
      ∀ row ∈ rows.flatten, IsCommitted row.tableId ∧
        ∀ file ∈ row.fileDeletions, file.1 < scope.env.snapshot.nextFileId := by
    refine mapM_rows_accounted fun entry hentry => ?_
    unfold newInlinedFileDeletes
    refine (getTableId_accounted (.inr (htables entry hentry))).bind fun t => .pull fun ht => ?_
    refine .pure fun s hs => ⟨hs, fun row hrow => ?_⟩
    split at hrow
    · rename_i hsome
      rw [List.mem_singleton.1 hrow]
      exact ⟨ht, hfiles entry hentry _ hsome⟩
    · cases hrow
  refine hdeletes.bind fun rows => .pull fun hrows => ?_
  refine .bind (emitIf_plain (fun _ _ _ => hrows) (fun _ => rfl) rfl) fun _ => ?_
  refine hfileDeletes.bind fun rows => .pull fun hrows => ?_
  refine ofExcept_accounted.bind fun texts => .pull fun htexts => ?_
  refine emit_plain (fun next hnext _ =>
    ⟨_, htexts, fun row hrow => ⟨(hrows row hrow).1, ?_⟩⟩) (fun _ => rfl) rfl
  exact fun file hfile => ((hrows row hrow).2 file hfile).trans_le hnext

/-! ### Compactions -/

omit [StatsMerge] in
theorem newCompactionFile_filed {tableId : TableIndex} {compaction : DuckLakeCompactionEntry}
    {bounds : SnapshotId × Option SnapshotId} {rows acc : List DuckLakeFileInfo}
    {file : DuckLakeDataFile} (htable : IsCommitted tableId)
    (hmapping : ∀ id ∈ file.mappingId, id < scope.env.snapshot.nextFileId ∨ id ∈ L.mappings) :
    Yields (Filed scope L (rows ++ acc)) (newCompactionFile tableId compaction bounds acc file)
      fun acc' => Filed scope L (rows ++ acc') := by
  unfold newCompactionFile
  dsimp only
  refine (getNewDataFile_filed htable hmapping _).bind fun row => .pure fun s hs => ?_
  refine ⟨?_, ?_⟩
  · simpa [DuckLakeFileInfo.fileIds] using hs.1
  · intro row' hrow'
    rw [← List.append_assoc, List.mem_append] at hrow'
    rcases hrow' with h | h
    · exact hs.2 row' (List.mem_append_left _ h)
    · rw [List.mem_singleton.1 h]
      exact hs.2 row (by simp)

/-- The rows of the files that were compacted refer to files that were there before, and to the
new ones. -/
def DuckLakeCompactedFileInfo.Refers (nextFile : DataFileIndex) (newFiles : List DataFileIndex)
    (row : DuckLakeCompactedFileInfo) : Prop :=
  IsCommitted row.tableIndex ∧ row.sourceId < nextFile ∧ (∀ id ∈ row.newId, id ∈ newFiles) ∧
    ∀ id ∈ row.deleteFileId, id < nextFile

omit [StatsMerge] [SQLWriter] in
theorem compactedFile_refers {tableId : TableIndex} {nextFile : DataFileIndex}
    {newFiles : List DataFileIndex} {newId : Option DataFileIndex}
    {source : DuckLakeCompactionFileEntry} (htable : IsCommitted tableId)
    (hsource : source.id < nextFile ∧ ∀ file ∈ source.deleteFiles, file.deleteFileId < nextFile)
    (hnew : ∀ id ∈ newId, id ∈ newFiles) (commitSnapshot : SnapshotId) :
    (compactedFile tableId commitSnapshot newId source).Refers nextFile newFiles := by
  unfold compactedFile
  dsimp only
  split
  · exact ⟨htable, hsource.1, hnew, nofun⟩
  · rename_i file hlast
    refine ⟨htable, hsource.1, hnew, fun id hid => ?_⟩
    cases hid
    exact hsource.2 file (List.mem_of_getLast? hlast)

/-- The compactions are of committed tables, and their files were there before. -/
def StagedTransaction.CompactsKnown (T : StagedTransaction) (nextFile : DataFileIndex)
    (mappings : List MappingIndex) : Prop :=
  ∀ entry ∈ T.localChanges.changes, ∀ compaction ∈ entry.2.compactions, IsCommitted entry.1 ∧
    (∀ file ∈ compaction.writtenFiles, ∀ id ∈ file.mappingId, id < nextFile ∨ id ∈ mappings) ∧
    ∀ source ∈ compaction.sourceFiles, source.id < nextFile ∧
      ∀ file ∈ source.deleteFiles, file.deleteFileId < nextFile

/-- The compactions of a transaction so far. -/
def CompactionInformation.Filed (scope : IdScope) (L : Ledger) (c : CompactionInformation)
    (s : CommitAttempt) : Prop :=
  DuckLake.Filed scope L c.newFiles s ∧ ∀ row ∈ c.compactedFiles,
    row.Refers scope.env.snapshot.nextFileId (c.newFiles.map (·.id))

omit [StatsMerge] in
theorem newCompaction_filed {tableId : TableIndex} {result : CompactionInformation}
    {compaction : DuckLakeCompactionEntry} (htable : IsCommitted tableId)
    (hmappings : ∀ file ∈ compaction.writtenFiles, ∀ id ∈ file.mappingId,
      id < scope.env.snapshot.nextFileId ∨ id ∈ L.mappings)
    (hsources : ∀ source ∈ compaction.sourceFiles, source.id < scope.env.snapshot.nextFileId ∧
      ∀ file ∈ source.deleteFiles, file.deleteFileId < scope.env.snapshot.nextFileId) :
    Yields (result.Filed scope L) (newCompaction tableId result compaction) fun result' =>
      result'.Filed scope L := by
  unfold newCompaction
  refine .pull fun hresult => .pull fun hrows => ?_
  refine getCommitSnapshot_accounted.bind fun snapshot => ?_
  dsimp only
  have hloop : Yields (Filed scope L result.newFiles)
      (compaction.writtenFiles.foldlM (newCompactionFile tableId compaction
        (compactionBounds compaction snapshot.snapshotId)) []) fun files =>
      Filed scope L (result.newFiles ++ files) := by
    refine (Yields.foldlM (fun _ files => Filed scope L (result.newFiles ++ files)) ?_).mono
      (fun s hs => by simpa using hs) fun _ _ hs => hs
    intro done file rest files hsplit
    exact newCompactionFile_filed htable (hmappings file (by simp [hsplit]))
  refine (hloop.mono (fun s hs => ⟨hs, hrows⟩) fun _ _ hs => hs).bind fun files => ?_
  refine ensure_yields.bind fun _ => .pull fun _ => ?_
  refine ensure_yields.bind fun _ => .pull fun _ => .pure fun s hs => ⟨hs, ?_⟩
  refine List.forall_mem_append.2 ⟨fun row hrow => ?_, fun row hrow => ?_⟩
  · obtain ⟨ht, hsource, hnew, hdelete⟩ := hresult row hrow
    refine ⟨ht, hsource, fun id hid => ?_, hdelete⟩
    rw [List.map_append]
    exact List.mem_append_left _ (hnew id hid)
  · obtain ⟨source, hsource, rfl⟩ := List.mem_map.1 hrow
    refine compactedFile_refers htable (hsources source hsource) (fun id hid => ?_) _
    obtain ⟨file, hfile, rfl⟩ := Option.map_eq_some_iff.1 hid
    exact List.mem_map_of_mem (List.mem_append_right _ (List.mem_of_mem_head? hfile))

omit [StatsMerge] in
theorem getCompactionChanges_filed (hL : L.newFiles = [])
    (hdata : T.CompactsKnown scope.env.snapshot.nextFileId L.mappings)
    (type : CompactionType) :
    Yields (Accounted.At scope L) (getCompactionChanges T type) fun result =>
      result.Filed scope L := by
  unfold getCompactionChanges
  refine (Yields.foldlM (fun _ result => CompactionInformation.Filed scope L result) ?_).mono
    (fun s hs => ⟨⟨?_, by simp⟩, by simp⟩) fun _ _ hs => hs
  · intro done entry rest result hsplit
    refine (Yields.foldlM (fun _ result => CompactionInformation.Filed scope L result) ?_).mono
      (fun s hs => hs) fun _ _ hs => hs
    intro done' compaction rest' result' hsplit'
    have hmem : compaction ∈ entry.2.compactions.filter (·.type = type) := by simp [hsplit']
    obtain ⟨htable, hmappings, hsources⟩ :=
      hdata entry (by simp [hsplit]) compaction (List.mem_filter.1 hmem).1
    exact newCompaction_filed htable hmappings hsources
  · exact hs.narrow (Nat.le_refl _) (.refl _) (.of_eq hL) (by simp) (List.Subset.refl _)
      (List.Subset.refl _) (List.Subset.refl _)

omit [StatsMerge] in
/-- The statement for the compacted files, which gives out no ids. -/
theorem emitCompactions_accounted {type : CompactionType} {result : CompactionInformation}
    {cond : Bool} {paths : List DuckLakePath}
    (hrows : ∀ row ∈ result.compactedFiles,
      row.Refers scope.env.snapshot.nextFileId (result.newFiles.map (·.id)))
    (hheld : ∀ id ∈ result.newFiles.map (·.id), id ∈ L.held) :
    Yields (Accounted.At scope L) (emitIf cond (.compactions type result.compactedFiles paths))
      fun _ => Accounted.At scope L := by
  refine emitIf_plain (fun next hnext hlt row hrow => ?_) (fun _ => rfl) rfl
  obtain ⟨htable, hsource, hnew, hdelete⟩ := hrows row hrow
  exact ⟨htable, hsource.trans_le hnext, fun id hid => hlt id (hheld id (hnew id hid)),
    fun id hid => (hdelete id hid).trans_le hnext⟩

omit [SQLWriter] [StatsMerge] in
theorem mem_fileIds {rows : List DuckLakeFileInfo} {held : List DataFileIndex} :
    ∀ id ∈ rows.map (·.id), id ∈ held ++ rows.flatMap (·.fileIds) := by
  intro id hid
  obtain ⟨row, hrow, rfl⟩ := List.mem_map.1 hid
  exact List.mem_append_right _ (List.mem_flatMap.2 ⟨row, hrow, .head _⟩)

omit [StatsMerge] in
theorem writeCompactions_accounted (hL : L.newFiles = [])
    (hdata : T.CompactsKnown scope.env.snapshot.nextFileId L.mappings)
    (written : WrittenEntries) :
    Yields (Accounted.At scope L) (writeCompactions scope.env T written) fun _ =>
      Accounted.At scope L := by
  unfold writeCompactions
  refine (getCompactionChanges_filed hL hdata _).bind fun merges => .pull fun hmerges =>
    .pull fun hmergeRows => ?_
  refine .bind (emitCompactions_accounted hmerges mem_fileIds) fun _ => ?_
  refine .bind (.mono (writeDataFiles_filed hL written) (fun s hs => ⟨hs, hmergeRows⟩)
    fun _ _ hs => hs) fun _ => ?_
  refine .bind (getCompactionChanges_filed (by exact hL) (by exact hdata) _) fun rewrites =>
    .pull fun hrewrites => ?_
  refine .bind (writeDataFiles_filed (by exact hL) written) fun _ => ?_
  refine .bind (emitCompactions_accounted hrewrites mem_fileIds) fun _ => ?_
  dsimp only
  refine .mono (.forM _ fun tableId htable => ?_) (fun s hs => hs) fun _ s hs => ?_
  · obtain ⟨row, hrow, rfl⟩ := List.mem_map.1 (OrdSet.mem_ofList.1 htable)
    refine ofExcept_accounted.bind fun rows => .pull fun _ => ?_
    exact emit_plain (fun _ _ _ => (hrewrites row hrow).1) (fun _ => rfl) rfl
  · exact hs.narrow (Nat.le_refl _) (.refl _) (.refl _)
      (List.subset_append_of_subset_left _ (List.subset_append_left _ _)) (List.Subset.refl _)
      (List.Subset.refl _) (List.Subset.refl _)

theorem writeTableChanges_accounted (hL : L.newFiles = [])
    (hdata : ∀ entry ∈ T.localChanges.changes,
      DataReferences scope.env.snapshot L.mappings entry.1 entry.2)
    (hdropped : ∀ file ∈ T.droppedFiles, file.2 < scope.env.snapshot.nextFileId)
    (hflushes : ∀ flush ∈ T.flushedInlinedFileDeletions, IsCommitted flush.1)
    (written : WrittenEntries) :
    Yields (Accounted.At scope L) (writeTableChanges scope.env T written) fun _ =>
      Accounted.At scope { L with tables := T.localChanges.changes.map (·.1) ++ L.tables } := by
  unfold writeTableChanges
  dsimp only
  let L' : Ledger := { L with tables := T.localChanges.changes.map (·.1) ++ L.tables }
  have hnew : Yields (Accounted.At scope L)
      (runIf (!T.localChanges.changes.isEmpty) (writeNewData scope.env T written)) fun _ =>
      Accounted.At scope L' := by
    unfold runIf
    split
    · refine writeNewData_accounted (fun entry hentry file hfile id hid => ?_) hL written
      exact (hdata entry hentry).mappings file (List.mem_append_left _ hfile) id hid
    · rename_i hempty
      have hnone : T.localChanges.changes = [] := by simpa using hempty
      refine .pure fun s hs => ?_
      simp only [L', hnone]
      exact hs
  have htables : ∀ entry ∈ T.localChanges.changes, entry.1 ∈ L'.tables :=
    fun entry hentry => List.mem_append_left _ (List.mem_map_of_mem hentry)
  refine hnew.bind fun _ => ?_
  refine .bind (emit_plain (fun _ _ _ => hflushes) (fun _ => rfl) rfl) fun _ => ?_
  refine (writeDroppedFiles_accounted hdropped scope.env).bind fun _ => ?_
  refine runIf_accounted ?_
  refine (writeNewDeleteFiles_accounted (by exact hL) htables
    (fun entry hentry file hfile => (hdata entry hentry).deletes file hfile) written).bind fun _ => ?_
  refine (writeInlinedDeletes_accounted htables
    fun entry hentry => (hdata entry hentry).inlined).bind fun _ => ?_
  refine writeCompactions_accounted (by exact hL) (fun entry hentry compaction hcompaction => ?_)
    written
  obtain ⟨htable, hsources⟩ := (hdata entry hentry).compacted compaction hcompaction
  refine ⟨htable, fun file hfile id hid => ?_, hsources⟩
  refine (hdata entry hentry).mappings file (List.mem_append_right _ ?_) id hid
  exact List.mem_flatMap.2 ⟨compaction, hcompaction, hfile⟩

/-! ## The change log -/

omit [StatsMerge] in
theorem insertNewSchema_accounted (written : WrittenEntries) :
    Yields (Accounted.At scope L) (insertNewSchema written) fun _ => Accounted.At scope L := by
  unfold insertNewSchema
  refine (Yields.get (Q := fun _ => Accounted.At scope L) fun s hs => hs).bind fun s => ?_
  dsimp only
  refine emitIf_plain (fun _ _ _ id hid => ?_) (fun _ => rfl) rfl
  unfold tablesWithSchemaChanges at hid
  rcases List.mem_append.1 (OrdSet.mem_ofList.1 hid) with h | h
  · have hlocal := (List.mem_filter.1 h).2
    simp only [Bool.and_eq_true, Bool.not_eq_true'] at hlocal
    exact hlocal.1
  · have hlocal := (List.mem_filter.1 h).2
    simpa [IsCommitted] using hlocal

omit [StatsMerge] in
/-- The ids of the change log are committed ones. -/
theorem changesMade_refers {s : CommitAttempt} (h : Accounted.At scope L s) {made : Text}
    (hmade : writeSnapshotChanges T.toDuckLakeTransactionState s.commitState s.changes = .ok made)
    (htables : ∀ entry ∈ T.localChanges.changes, entry.1 ∈ L.tables)
    (hwritten : scope.written ⊆ L.tables)
    (hdeleted : ∀ id ∈ T.tablesDeletedFrom, scope.Known id) :
    ∃ log, parseChangesMade made = .ok log ∧ ∀ type, ∀ id ∈ log.ids type, IsCommitted id := by
  obtain ⟨log, hlog, hsets, -⟩ := LoggedTransaction.parse_changesMade ⟨_, _, _, made, hmade⟩
  refine ⟨log, hlog, fun type id hid => ?_⟩
  have hknown : ∀ id, scope.Known id → IsCommitted (s.commitState.getTableId id) := by
    intro id hid
    rcases hid with hid | hid
    · exact h.getTableId (.inl hid)
    · exact h.getTableId (.inr (hwritten hid))
  have hmem : id ∈ log.sets.ids type := hid
  rw [hsets] at hmem
  obtain ⟨old, hold, rfl⟩ := hmem
  rcases mem_ids_readdTableChanges.1 hold with ⟨entry, hentry, hmakes, rfl⟩ | hlogged
  · -- the tables whose data was changed
    have hcommitted := h.getTableId (.inr (htables entry hentry))
    cases type <;> first
      | exact h.getTableId (.inl hcommitted)
      | exact absurd hmakes (by simp [LocalTableDataChanges.makes])
  · by_cases htype : type = .deletedFromTable
    · subst htype
      exact hknown old (hdeleted old hlogged)
    · have hchanges : old ∈ s.changes.ids type := by
        cases type <;> first | exact hlogged | exact absurd rfl htype
      have hid := h.changes type old hchanges
      cases type <;> first | exact hid | exact hknown old hid

/-! ## The batch -/

variable {changes : TransactionChangeInformation} {env : CommitEnvironment}

omit [StatsMerge] in
/-- The scope of a transaction that refers to what it writes. -/
def RefersToWritten.idScope (h : RefersToWritten env.snapshot changes T) : IdScope where
  env := env
  written := T.writtenTables
  limit := T.catalogSize
  fits := h.room

omit [StatsMerge] in
theorem startAttempt_accounted (h : RefersToWritten env.snapshot changes T) :
    Accounted.At h.idScope {} (startAttempt env changes T) where
  counted := ⟨Nat.le_refl _, Nat.le_refl _⟩
  newIds := ⟨by simp [startAttempt], by simp [startAttempt]⟩
  newFiles := ⟨Nat.le_refl _, by simp [startAttempt], by simp [startAttempt]⟩
  held := by simp
  tables := by simp
  schemas := by simp
  mappings := by simp
  tableValues := by simp [startAttempt]
  schemaValues := by simp [startAttempt]
  mappingValues := by simp [startAttempt]
  localDeletes := by simp [startAttempt]
  changes := h.logged
  dropped := h.droppedStats
  givenTables := ⟨by simp [startAttempt, DuckLakeCommitState.replacedTables],
    by simp [startAttempt, DuckLakeCommitState.replacedTables]⟩
  givenSchemas := ⟨by simp [startAttempt], by simp [startAttempt]⟩
  refers := by simp [startAttempt]

/-- The books when all changes are written. -/
def StagedTransaction.finalLedger (T : StagedTransaction) : Ledger where
  spent := T.catalogSize
  tables := T.localChanges.changes.map (·.1) ++
    (T.newMaterializedViews.map (·.id) ++ T.stagedTables)
  schemas := T.stagedSchemas
  mappings := T.newNameMaps.map (·.1)

theorem commitChanges_accounted (h : RefersToWritten env.snapshot changes T) :
    Yields (Accounted.At h.idScope {}) (commitChanges env T) fun _ =>
      Accounted.At h.idScope T.finalLedger := by
  unfold commitChanges
  have hlimit : h.idScope.limit = T.catalogSize := rfl
  have hsize : T.catalogSize = T.newSchemas.length + (T.stagedEntries.map (·.size)).sum +
    T.newMaterializedViews.length + T.stagedMacros.length + T.stagedProcedures.length := rfl
  refine store_accounted.bind fun _ => ?_
  have hinfo : Yields (Accounted.At h.idScope {}) (ensureCommitInfoProvided T) fun _ =>
      Accounted.At h.idScope {} := by
    unfold ensureCommitInfoProvided
    exact .ite (fun _ => .pure fun s hs => hs) fun _ => .throw
  refine hinfo.bind fun _ => ?_
  refine (writeDrops_accounted h.drops).bind fun _ => ?_
  refine (writeNewSchemas_accounted h.parents (by omega) env).bind fun schemas => ?_
  refine .bind (@writeNewTables_accounted _ h.idScope _ T rfl (by exact h.entries) (fun id hid => ?_)
    (by dsimp only; omega) schemas) fun written => ?_
  · exact .inr (List.mem_append_left _ hid)
  refine .bind (writeNewMaterializedViews_accounted rfl
    (by simpa [RefersToWritten.idScope] using h.materializedViews) (by dsimp only; omega)) fun _ => ?_
  refine .bind (writeMaterializedViewRefreshes_accounted fun refresh hrefresh => ?_) fun _ => ?_
  · rcases h.refreshes refresh hrefresh with hid | hid
    · exact .inl hid
    · refine .inr ?_
      simpa [StagedTransaction.writtenTables, or_comm] using hid
  refine .bind (writeNewMacros_accounted rfl (by exact h.macros) (by dsimp only; omega)) fun _ => ?_
  refine .bind (writeNewProcedures_accounted rfl (by exact h.procedures) (by dsimp only; omega))
    fun _ => ?_
  refine .bind (writeNewNameMaps_accounted rfl) fun _ => ?_
  refine .bind (@writeTableChanges_accounted _ h.idScope _ T _ rfl
    (by simpa [RefersToWritten.idScope] using h.data) h.droppedFiles h.flushes written) fun _ => ?_
  refine (insertNewSchema_accounted written).mono (fun s hs => ?_) fun _ _ hs => hs
  simpa [StagedTransaction.finalLedger, hsize, Nat.add_assoc] using hs

/-- The id is one that the batch gives out. -/
def GivenId.GivenBy (first : Idx) (batch : List Statement) : GivenId → Prop
  | .catalog id => id ∈ batch.flatMap (·.newCatalogIds first)
  | .file id => id ∈ batch.flatMap (·.newFileIds)

/-- What a commit of the transaction gives ids to. Its transaction-local schemas, tables and views
are given ids that the batch writes, different ones for different objects. What has no id before,
the batch writes once with an id of its own, and nothing else: the schemas, the partition and sort
keys, the macros, procedures, name maps, data files and delete files of the transaction. -/
structure GivesIds (first : Idx) (T : StagedTransaction) (s : CommitAttempt) : Prop where
  schemas : ∀ id ∈ T.stagedSchemas, ¬ IsCommitted id →
    s.commitState.getSchemaId id ∈ s.batchQueries.flatMap (·.newCatalogIds first)
  tables : ∀ id ∈ T.writtenTables, ¬ IsCommitted id →
    s.commitState.getTableId id ∈ s.batchQueries.flatMap (·.newCatalogIds first)
  distinctSchemas : ∀ id ∈ T.stagedSchemas, ∀ id' ∈ T.stagedSchemas, ¬ IsCommitted id →
    ¬ IsCommitted id' → s.commitState.getSchemaId id = s.commitState.getSchemaId id' → id = id'
  distinctTables : ∀ id ∈ T.writtenTables, ∀ id' ∈ T.writtenTables, ¬ IsCommitted id →
    ¬ IsCommitted id' → s.commitState.getTableId id = s.commitState.getTableId id' → id = id'
  objects : ((s.batchQueries.flatMap (·.gives)).map (·.1)).Perm T.newObjects
  distinctObjects : ((s.batchQueries.flatMap (·.gives)).map (·.2)).Nodup
  given : ∀ e ∈ s.batchQueries.flatMap (·.gives), e.2.GivenBy first s.batchQueries

omit [SQLWriter] [StatsMerge] in
/-- A transaction-local id with a committed replacement has an entry. -/
theorem mem_of_replaced {l : List (Idx × Idx)} {id : Idx} (hid : ¬ IsCommitted id)
    (h : IsCommitted ((l.lookup id).getD id)) : (id, (l.lookup id).getD id) ∈ l := by
  cases hl : l.lookup id with
  | none =>
    rw [hl] at h
    exact absurd h hid
  | some value =>
    obtain ⟨before, after, hsplit, -⟩ := List.lookup_eq_some_iff.1 hl
    simp [hsplit]

omit [SQLWriter] [StatsMerge] in
theorem Replacements.inj {ids : List Idx} {l : List (Idx × Idx)} (h : Replacements ids l)
    {e e' : Idx × Idx} (he : e ∈ l) (he' : e' ∈ l) (hsame : e.2 = e'.2) : e.1 = e'.1 :=
  congrArg Prod.fst (List.inj_on_of_nodup_map h.distinct he he' hsame)

omit [SQLWriter] [StatsMerge] in
theorem givenBy_of_mem_gives {first : Idx} {batch : List Statement} {e : NewObject × GivenId}
    (he : e ∈ batch.flatMap (·.gives)) : e.2.GivenBy first batch := by
  obtain ⟨statement, hstatement, he⟩ := List.mem_flatMap.1 he
  obtain ⟨object, id⟩ := e
  cases id with
  | catalog id =>
    exact List.mem_flatMap.2 ⟨statement, hstatement, (statement.gives_catalog first).subset
      (List.mem_filterMap.2 ⟨_, he, rfl⟩)⟩
  | file id =>
    exact List.mem_flatMap.2 ⟨statement, hstatement, statement.gives_file.subset
      (List.mem_filterMap.2 ⟨_, he, rfl⟩)⟩

omit [StatsMerge] in
/-- Different tables with changed data are different tables of the catalog. -/
theorem Accounted.At.distinctTables {s : CommitAttempt} (h : Accounted.At scope L s)
    (hids : L.newIds = []) (hknown : ∀ entry ∈ T.localChanges.changes,
      IsCommitted entry.1 → entry.1 < scope.env.snapshot.nextCatalogId) :
    DistinctTables T s.commitState.getTableId := by
  have hgiven := h.givenTables
  rw [hids, List.nil_append] at hgiven
  have hreplaced : ∀ id, ¬ IsCommitted id → IsCommitted (s.commitState.getTableId id) →
      (id, s.commitState.getTableId id) ∈ s.commitState.replacedTables := by
    intro id hlocal hcommitted
    refine List.mem_filter.2 ⟨mem_of_replaced hlocal hcommitted, ?_⟩
    simpa [IsCommitted] using hlocal
  -- the id of a committed table is not one that is given out
  have hother : ∀ id, ∀ entry ∈ T.localChanges.changes, ¬ IsCommitted id → IsCommitted entry.1 →
      IsCommitted (s.commitState.getTableId id) →
      s.commitState.getTableId id ≠ s.commitState.getTableId entry.1 := by
    intro id entry hentry hlocal hcommitted hnew hsame
    have hrange := (h.newIds.range _ (List.mem_append_right _
      (hgiven.given _ (hreplaced id hlocal hnew)))).1
    rw [hsame, s.commitState.getTableId_of_committed hcommitted] at hrange
    exact absurd (hknown entry hentry hcommitted) (not_lt.2 hrange)
  intro a ha b hb hacommitted hbcommitted hsame
  by_cases halocal : IsCommitted a.1
  · by_cases hblocal : IsCommitted b.1
    · rwa [s.commitState.getTableId_of_committed halocal,
        s.commitState.getTableId_of_committed hblocal] at hsame
    · exact absurd hsame.symm (hother b.1 a ha hblocal halocal hbcommitted)
  · by_cases hblocal : IsCommitted b.1
    · exact absurd hsame (hother a.1 b hb halocal hblocal hacommitted)
    · exact hgiven.inj (hreplaced a.1 halocal hacommitted) (hreplaced b.1 hblocal hbcommitted) hsame

omit [StatsMerge] in
theorem Accounted.At.givesIds {s : CommitAttempt} (h : Accounted.At scope L s)
    (hids : L.newIds = []) (hfiles : L.newFiles = []) (hschemas : T.stagedSchemas ⊆ L.schemas)
    (htables : T.writtenTables ⊆ L.tables)
    (hobjects : (s.batchQueries.flatMap (·.newObjects)).Perm T.newObjects) :
    GivesIds scope.env.snapshot.nextCatalogId T s := by
  have hgivenTables := h.givenTables
  have hgivenSchemas := h.givenSchemas
  rw [hids, List.nil_append] at hgivenTables hgivenSchemas
  have hschema : ∀ id ∈ T.stagedSchemas, ¬ IsCommitted id →
      (id, s.commitState.getSchemaId id) ∈ s.commitState.committedSchemas :=
    fun id hid hlocal => mem_of_replaced hlocal (h.schemas id (hschemas hid))
  have htable : ∀ id ∈ T.writtenTables, ¬ IsCommitted id →
      (id, s.commitState.getTableId id) ∈ s.commitState.replacedTables := by
    intro id hid hlocal
    refine List.mem_filter.2 ⟨mem_of_replaced hlocal (h.tables id (htables hid)), ?_⟩
    simpa [IsCommitted] using hlocal
  have hcatalogIds := h.newIds.distinct
  have hfileIds := h.newFiles.distinct
  rw [hids, List.nil_append] at hcatalogIds
  rw [hfiles, List.nil_append] at hfileIds
  exact {
    schemas := fun id hid hlocal => hgivenSchemas.given _ (hschema id hid hlocal)
    tables := fun id hid hlocal => hgivenTables.given _ (htable id hid hlocal)
    distinctSchemas := fun id hid id' hid' hlocal hlocal' hsame =>
      hgivenSchemas.inj (hschema id hid hlocal) (hschema id' hid' hlocal') hsame
    distinctTables := fun id hid id' hid' hlocal hlocal' hsame =>
      hgivenTables.inj (htable id hid hlocal) (htable id' hid' hlocal') hsame
    objects := by rwa [List.map_flatMap]
    distinctObjects := nodup_gives hcatalogIds hfileIds
    given := fun e he => givenBy_of_mem_gives he }

/-- A batch of a transaction that refers to what it writes. -/
theorem commitBatch_writesIds (h : RefersToWritten env.snapshot changes T) :
    Yields (Accounted.At h.idScope {}) (commitBatch env T) fun _ s =>
      WritesIds env env.snapshot s.commitSnapshot s.batchQueries ∧
      Accounted.At h.idScope T.finalLedger s := by
  unfold commitBatch
  have hwritten : T.writtenTables ⊆ T.finalLedger.tables := by
    intro id hid
    refine List.mem_append_right _ ?_
    simpa [StagedTransaction.writtenTables, or_comm] using hid
  refine .bind (emit_plain (fun _ _ _ => trivial) (fun _ => rfl) rfl) fun _ => ?_
  refine (commitChanges_accounted h).bind fun _ => ?_
  refine (Yields.get (Q := fun s₀ s => Accounted.At h.idScope T.finalLedger s ∧ s₀ = s)
    fun s hs => ⟨hs, rfl⟩).bind fun s₀ => ?_
  refine (Yields.ofExcept (Q := fun made s => Accounted.At h.idScope T.finalLedger s ∧
    ∃ log, parseChangesMade made = .ok log ∧ ∀ type, ∀ id ∈ log.ids type, IsCommitted id)
    fun s made hs hmade => ?_).bind fun made => .pull fun hlog => ?_
  · obtain ⟨hs, rfl⟩ := hs
    refine ⟨hs, changesMade_refers hs hmade (fun entry hentry => ?_) hwritten h.deletedFrom⟩
    exact List.mem_append_left _ (List.mem_map_of_mem hentry)
  refine .mono (emit_plain (fun _ _ _ text htext => ?_) (fun _ => rfl) rfl) (fun s hs => hs)
    fun _ s hs => ⟨?_, ?_⟩
  · unfold changesMadeColumn at htext
    split at htext
    · cases htext
    · cases htext
      exact hlog
  · exact {
      le := hs.counted.le
      catalogIds := hs.newIds
      fileIds := hs.newFiles
      refers := hs.refers }
  · exact hs

omit [StatsMerge] in
/-- What it gives ids to. -/
theorem commitBatch_givesIds (h : RefersToWritten env.snapshot changes T) {s : CommitAttempt}
    (hs : Accounted.At h.idScope T.finalLedger s)
    (hobjects : DistinctTables T s.commitState.getTableId →
      (s.batchQueries.flatMap (·.newObjects)).Perm T.newObjects) :
    GivesIds env.snapshot.nextCatalogId T s := by
  refine hs.givesIds rfl rfl (List.Subset.refl _) (fun id hid => ?_) (hobjects ?_)
  · refine List.mem_append_right _ ?_
    simpa [StagedTransaction.writtenTables, or_comm] using hid
  · exact hs.distinctTables rfl fun entry hentry => (h.data entry hentry).known

end Stages

/-! ## Runs of commits -/

section Runs

variable [SQLWriter] [StatsMerge]

/-- A commit whose batch was written. -/
structure WrittenCommit where
  env : CommitEnvironment
  changes : TransactionChangeInformation
  T : StagedTransaction
  attempt : CommitAttempt
  written : Attempt.run (commitBatch env T) (startAttempt env changes T) = (.ok (), attempt)

namespace WrittenCommit

/-- The snapshot that the commit has read. -/
def before (c : WrittenCommit) : DuckLakeSnapshot := c.env.snapshot

/-- The snapshot that the commit has made. -/
def after (c : WrittenCommit) : DuckLakeSnapshot := c.attempt.commitSnapshot

def newCatalogIds (c : WrittenCommit) : List Idx :=
  c.attempt.batchQueries.flatMap (·.newCatalogIds c.before.nextCatalogId)

def newFileIds (c : WrittenCommit) : List DataFileIndex :=
  c.attempt.batchQueries.flatMap (·.newFileIds)

/-- Every commit of the run starts from the snapshot that the one before has made. -/
def Run (first : DuckLakeSnapshot) : List WrittenCommit → Prop
  | [] => True
  | c :: rest => c.before = first ∧ Run c.after rest

/-- The ids of a run: every commit gives out new ones and writes committed ones only, and no id is
given out twice. -/
structure UniqueIds (commits : List WrittenCommit) : Prop where
  writes : ∀ c ∈ commits, WritesIds c.env c.before c.after c.attempt.batchQueries
  gives : ∀ c ∈ commits, GivesIds c.before.nextCatalogId c.T c.attempt
  catalogIds : (commits.flatMap newCatalogIds).Nodup
  fileIds : (commits.flatMap newFileIds).Nodup

variable {first : DuckLakeSnapshot} {commits : List WrittenCommit}

theorem ids_of_refersToWritten (c : WrittenCommit) (h : RefersToWritten c.before c.changes c.T) :
    WritesIds c.env c.before c.after c.attempt.batchQueries ∧
      GivesIds c.before.nextCatalogId c.T c.attempt := by
  obtain ⟨hwrites, haccounted⟩ := commitBatch_writesIds h _ (startAttempt_accounted h) _ _ c.written
  refine ⟨hwrites, commitBatch_givesIds h haccounted ?_⟩
  exact commitBatch_written c.env _ ⟨rfl, rfl⟩ _ _ c.written

/-- The ids of the commits that follow are not below the counters. -/
theorem Run.le (hrun : Run first commits)
    (h : ∀ c ∈ commits, WritesIds c.env c.before c.after c.attempt.batchQueries) :
    (∀ id ∈ commits.flatMap newCatalogIds, first.nextCatalogId.toNat ≤ id.toNat) ∧
      ∀ id ∈ commits.flatMap newFileIds, first.nextFileId ≤ id := by
  induction commits generalizing first with
  | nil => exact ⟨by simp, by simp⟩
  | cons c rest ih =>
    obtain ⟨hbefore, hrest⟩ := hrun
    have hc := h c (.head _)
    obtain ⟨hcatalog, hfiles⟩ := ih hrest fun c' hc' => h c' (.tail _ hc')
    subst hbefore
    constructor
    · intro id hid
      rw [List.flatMap_cons, List.mem_append] at hid
      rcases hid with hid | hid
      · exact (hc.catalogIds.range id hid).1
      · exact hc.le.trans (hcatalog id hid)
    · intro id hid
      rw [List.flatMap_cons, List.mem_append] at hid
      rcases hid with hid | hid
      · exact (hc.fileIds.range id hid).1
      · exact hc.fileIds.le.trans (hfiles id hid)

theorem Run.nodup (hrun : Run first commits)
    (h : ∀ c ∈ commits, WritesIds c.env c.before c.after c.attempt.batchQueries) :
    (commits.flatMap newCatalogIds).Nodup ∧ (commits.flatMap newFileIds).Nodup := by
  induction commits generalizing first with
  | nil => exact ⟨List.nodup_nil, List.nodup_nil⟩
  | cons c rest ih =>
    obtain ⟨-, hrest⟩ := hrun
    have hc := h c (.head _)
    have hlater : ∀ c' ∈ rest, WritesIds c'.env c'.before c'.after c'.attempt.batchQueries :=
      fun c' hc' => h c' (.tail _ hc')
    obtain ⟨hcatalog, hfiles⟩ := ih hrest hlater
    obtain ⟨hcatalogLe, hfilesLe⟩ := hrest.le hlater
    constructor
    · rw [List.flatMap_cons, List.nodup_append]
      refine ⟨hc.catalogIds.distinct, hcatalog, fun id hid id' hid' heq => ?_⟩
      -- the ids of this commit lie below its last counter, later ones do not
      have hlt := (hc.catalogIds.range id hid).2
      have hle := hcatalogLe id' hid'
      rw [heq] at hlt
      exact absurd hlt (not_lt.2 hle)
    · rw [List.flatMap_cons, List.nodup_append]
      refine ⟨hc.fileIds.distinct, hfiles, fun id hid id' hid' heq => ?_⟩
      have hlt := (hc.fileIds.range id hid).2
      have hle := hfilesLe id' hid'
      rw [heq] at hlt
      exact absurd hlt (not_lt.2 hle)

/-- In a run of commits of transactions that refer to what they write, ids are given out once and
no transaction-local id is written. -/
theorem uniqueIds_of_refersToWritten (hrun : Run first commits)
    (h : ∀ c ∈ commits, RefersToWritten c.before c.changes c.T) : UniqueIds commits := by
  have hwrites : ∀ c ∈ commits, WritesIds c.env c.before c.after c.attempt.batchQueries :=
    fun c hc => (c.ids_of_refersToWritten (h c hc)).1
  obtain ⟨hcatalog, hfiles⟩ := hrun.nodup hwrites
  exact {
    writes := hwrites
    gives := fun c hc => (c.ids_of_refersToWritten (h c hc)).2
    catalogIds := hcatalog
    fileIds := hfiles }

end WrittenCommit

end Runs

section Example

attribute [local instance] SQLWriter.reference textualStats

/-- The batch of a transaction, when nothing throws. -/
def writtenCommit (env : CommitEnvironment) (T : StagedTransaction)
    (h : (Attempt.run (commitBatch env T) (startAttempt env {} T)).1.isOk = true) :
    WrittenCommit where
  env := env
  changes := {}
  T := T
  attempt := (Attempt.run (commitBatch env T) (startAttempt env {} T)).2
  written := by
    match hrun : Attempt.run (commitBatch env T) (startAttempt env {} T) with
    | (.ok _, s) => rfl
    | (.error e, s) =>
      rw [hrun] at h
      cases h

/-- The commit of a transaction that creates a view and refreshes it. -/
def createAndRefreshCommit : WrittenCommit :=
  writtenCommit (emptyCatalog 3 10) (createAndRefresh recentOrders.id) (by decide +kernel)

theorem createAndRefresh_refersToWritten :
    RefersToWritten (emptyCatalog 3 10).snapshot {} (createAndRefresh recentOrders.id) where
  room := by decide
  parents := nofun
  entries := by
    intro entry hentry
    cases List.mem_singleton.1 hentry
    exact ⟨by simp, by simp; decide, by simp; decide, by simp; decide⟩
  materializedViews := by
    intro before mv after hsplit
    cases before with
    | nil =>
      cases hsplit
      exact ⟨.inl (by decide), fun hmv => absurd hmv (by decide),
        List.forall_mem_cons.2 ⟨.inr (.inl (by decide)),
          List.forall_mem_cons.2 ⟨.inl (by decide), List.forall_mem_nil _⟩⟩⟩
    | cons first before => simp [createAndRefresh] at hsplit
  refreshes := by
    intro refresh hrefresh
    cases List.mem_singleton.1 hrefresh
    exact .inr (by decide)
  macros := nofun
  procedures := nofun
  drops := ⟨nofun, nofun, nofun, nofun, nofun, nofun, nofun, nofun, nofun⟩
  data := nofun
  droppedFiles := nofun
  droppedStats := nofun
  flushes := nofun
  logged := by
    intro type id hid
    cases type <;> cases hid
  deletedFrom := nofun

/-- A new view and its refresh go together. -/
theorem uniqueIds_createAndRefresh :
    WrittenCommit.Run (emptyCatalog 3 10).snapshot [createAndRefreshCommit] ∧
      WrittenCommit.UniqueIds [createAndRefreshCommit] := by
  have hrun : WrittenCommit.Run (emptyCatalog 3 10).snapshot [createAndRefreshCommit] :=
    ⟨rfl, trivial⟩
  refine ⟨hrun, WrittenCommit.uniqueIds_of_refersToWritten hrun fun c hc => ?_⟩
  rw [List.mem_singleton.1 hc]
  exact createAndRefresh_refersToWritten

/-- A table is created, and so is a materialized view that is refreshed and then dropped again:
its refresh stays behind. -/
def refreshOfDropped : StagedTransaction where
  commitInfo := ⟨none, none, none, false⟩
  newTables := [(0, [.table [{ backingTable with name := "archive" }]])]
  refreshedMaterializedViews :=
    [{ viewId := transactionLocalIdStart + 2, refreshMode := "full", rowsRefreshed := 1 }]

def refreshOfDroppedCommit : WrittenCommit :=
  writtenCommit (emptyCatalog 3 10) refreshOfDropped (by decide +kernel)

/-- The refresh is written with the transaction-local id of the view. -/
theorem not_uniqueIds_refreshOfDropped :
    ¬ ∀ (first : DuckLakeSnapshot) (commits : List WrittenCommit),
      WrittenCommit.Run first commits → WrittenCommit.UniqueIds commits := by
  intro h
  have hrefers := ((h (emptyCatalog 3 10).snapshot [refreshOfDroppedCommit] ⟨rfl, trivial⟩).writes
    refreshOfDroppedCommit (.head _)).refers
  have hmem : transactionLocalIdStart + 2 ∈ refreshedViews
      (.ok (refreshOfDroppedCommit.attempt.batchQueries, refreshOfDroppedCommit.after)) := by
    decide +kernel
  obtain ⟨statement, hstatement, hid⟩ := List.mem_flatMap.1 hmem
  have hall := hrefers statement hstatement
  cases statement with
  | materializedViewRefreshes rows =>
    obtain ⟨row, hrow, heq⟩ := List.mem_map.1 hid
    have hcommitted := hall row hrow
    rw [heq] at hcommitted
    exact absurd hcommitted (by decide)
  | _ => cases hid

end Example

end DuckLake
