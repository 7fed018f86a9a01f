import DuckLake.Storage.CleanupFiles

/-!
# Files in use during a run

Scheduled files are deleted without another look at the metadata, so what counts is what is
scheduled and what is registered later on. `cleanup_sparesUsedFiles` says which steps of a run keep
the files in use.
-/

namespace DuckLake

/-! ## Steps that keep used files -/

namespace Metadata

/-- No other catalog owns the file and no row that stays has it. -/
def OwnedAlone (md : Metadata) (settings : CatalogSettings) (kept : List FileRow) (path : Text) :
    Prop :=
  md.isExternalFile path = false ∧ ∀ row ∈ kept, path ∉ md.resolvedPaths settings row

instance (md : Metadata) (settings : CatalogSettings) (kept : List FileRow) (path : Text) :
    Decidable (md.OwnedAlone settings kept path) :=
  inferInstanceAs (Decidable (_ ∧ _))

/-- The rows that stay when delete files are overwritten. -/
def keptByOverwrite (md : Metadata) (ids : List DataFileIndex) : List FileRow :=
  md.dataFiles.map (·.fileRow) ++
    (md.deleteFiles.filter (!ids.contains ·.deleteFileId)).map (·.fileRow)

/-- The rows that stay when data files are merged. -/
def keptByMerge (md : Metadata) (ids : List DataFileIndex) : List FileRow :=
  (md.dataFiles.filter (!ids.contains ·.dataFileId)).map (·.fileRow) ++
    (md.deleteFiles.filter (!ids.contains ·.dataFileId)).map (·.fileRow)

/-- A new row names a file that does not wait for its deletion. -/
def Unscheduled (md : Metadata) (settings : CatalogSettings) (row : FileRow) : Prop :=
  ∀ p ∈ md.resolvedPaths settings row, p ∉ md.pathsScheduled settings

instance (md : Metadata) (settings : CatalogSettings) (row : FileRow) :
    Decidable (md.Unscheduled settings row) :=
  inferInstanceAs (Decidable (∀ p ∈ _, _))

/-- The condition under which a statement keeps the files in use: files whose rows go have no other
user and files whose rows come are not scheduled. A new schema or table has a new id or the path
of the entry whose id it has. -/
def CarefulStatement (md : Metadata) (settings : CatalogSettings) : Statement → Prop
  | .newSchemas rows => ∀ row ∈ rows, ⟨row.1.id, row.2⟩ ∈ md.schemaPlaces ∨
      ∀ table ∈ md.tablePlaces, table.schemaId ≠ row.1.id
  | .newTables rows => ∀ row ∈ rows, ⟨row.1.id, row.1.schemaId, row.2⟩ ∈ md.tablePlaces ∨
      ∀ file ∈ md.fileRows, file.tableId ≠ row.1.id
  | .newDataFiles rows => ∀ row ∈ rows,
      md.Unscheduled settings ⟨row.1.id, row.1.tableId, row.2⟩
  | .newDeleteFiles rows => ∀ row ∈ rows,
      md.Unscheduled settings ⟨row.1.id, row.1.tableId, row.2⟩
  | .deleteOverwrittenDeleteFiles rows => ∀ row ∈ rows, md.OwnedAlone settings
      (md.keptByOverwrite (rows.map (·.1.deleteFileId))) (scheduledPath settings row.2)
  | .compactions .mergeAdjacentTables rows paths => ∀ path ∈ paths, md.OwnedAlone settings
      (md.keptByMerge (rows.map (·.sourceId))) (scheduledPath settings path)
  | _ => True

end Metadata

def FileStep.Careful (settings : CatalogSettings) (md : Metadata) : FileStep → Prop
  | .statement _ s => md.CarefulStatement settings s
  | .deleteSnapshots snapshot ids => ∀ gone ∈ md.expiredFileRows (md.retained ids), ∀ p,
      md.resolved settings snapshot gone = .ok p → md.isExternalFile p = true ∨
        ∀ kept ∈ md.keptFileRows (md.retained ids), p ∉ md.resolvedPaths settings kept
  | .markExternalFiles paths => ∀ path ∈ paths, ∀ p ∈ md.pathsScheduled settings,
      replaceChar '\\' '/' p ≠ replaceChar '\\' '/' path
  | .removeFilesScheduledForCleanup _ => True

namespace Metadata

/-- Nothing that says where files are is added. -/
structure Shrinks (md md' : Metadata) : Prop where
  fileRows : md'.fileRows ⊆ md.fileRows
  tablePlaces : md'.tablePlaces ⊆ md.tablePlaces
  schemaPlaces : md'.schemaPlaces ⊆ md.schemaPlaces
  externalFiles : md'.externalFiles ⊆ md.externalFiles

section Steps

variable {md md' md'' : Metadata} {settings : CatalogSettings}

theorem Shrinks.refl (md : Metadata) : md.Shrinks md :=
  ⟨List.Subset.refl _, List.Subset.refl _, List.Subset.refl _, List.Subset.refl _⟩

theorem Shrinks.trans (h : md.Shrinks md') (h' : md'.Shrinks md'') : md.Shrinks md'' :=
  ⟨List.Subset.trans h'.fileRows h.fileRows, List.Subset.trans h'.tablePlaces h.tablePlaces,
    List.Subset.trans h'.schemaPlaces h.schemaPlaces,
    List.Subset.trans h'.externalFiles h.externalFiles⟩

theorem isExternalFile_mono (h : md'.externalFiles ⊆ md.externalFiles) {p : Text}
    (hp : md'.isExternalFile p = true) : md.isExternalFile p = true := by
  unfold isExternalFile at hp ⊢
  rw [List.contains_iff_mem] at hp ⊢
  exact List.map_subset _ h hp

theorem Shrinks.inUse (h : md.Shrinks md') {p : Text} (hp : md'.InUse settings p) :
    md.InUse settings p := by
  rcases hp with ⟨row, hrow, hp⟩ | hp
  · exact .inl ⟨row, h.fileRows hrow, resolvedPaths_mono h.tablePlaces h.schemaPlaces row hp⟩
  · exact .inr (isExternalFile_mono h.externalFiles hp)

/-- A step that only removes may schedule what is then no longer in use. -/
theorem ScheduledUnused.shrink (hmd : md.ScheduledUnused settings) (h : md.Shrinks md')
    (hp : ∀ p ∈ md'.pathsScheduled settings,
      p ∈ md.pathsScheduled settings ∨ ¬ md'.InUse settings p) :
    md'.ScheduledUnused settings := by
  intro p hmem huse
  rcases hp p hmem with hold | hnew
  · exact hmd p hold (h.inUse huse)
  · exact hnew huse

/-- A step that schedules nothing may add what is not scheduled. -/
theorem ScheduledUnused.grow (hmd : md.ScheduledUnused settings)
    (hscheduled : md'.filesScheduledForDeletion = md.filesScheduledForDeletion)
    (huse : ∀ p, md'.InUse settings p → md.InUse settings p ∨ p ∉ md.pathsScheduled settings) :
    md'.ScheduledUnused settings := by
  intro p hmem hp
  have hold : p ∈ md.pathsScheduled settings := by
    unfold pathsScheduled at hmem ⊢
    rwa [hscheduled] at hmem
  rcases huse p hp with h | h
  · exact hmd p hold h
  · exact h hold

theorem OwnedAlone.not_inUse {kept : List FileRow} {p : Text} (h : md.OwnedAlone settings kept p)
    (hshrinks : md.Shrinks md') (hkept : md'.fileRows ⊆ kept) : ¬ md'.InUse settings p := by
  rintro (⟨row, hrow, hp⟩ | hext)
  · exact h.2 row (hkept hrow)
      (resolvedPaths_mono hshrinks.tablePlaces hshrinks.schemaPlaces row hp)
  · have hfalse := h.1
    rw [isExternalFile_mono hshrinks.externalFiles hext] at hfalse
    cases hfalse

theorem mem_pathsScheduled_addScheduled {rows : List ScheduledFileRow} {p : Text} :
    p ∈ (md.addScheduled rows).pathsScheduled settings ↔
      p ∈ md.pathsScheduled settings ∨ ∃ row ∈ rows, scheduledPath settings row.path = p := by
  simp [pathsScheduled, addScheduled, List.map_append]

end Steps

end Metadata

namespace Metadata

/-! ### Single operations -/

section Operations

variable {md md' : Metadata} {settings : CatalogSettings}

theorem shrinks_setDataFileLife (life : DataFileRow → Validity SnapshotId) :
    md.Shrinks (md.setDataFileLife life) where
  fileRows := by
    unfold fileRows setDataFileLife
    rw [List.map_map]
    exact List.Subset.refl _
  tablePlaces := List.Subset.refl _
  schemaPlaces := List.Subset.refl _
  externalFiles := List.Subset.refl _

theorem shrinks_setDeleteFileLife (life : DeleteFileRow → Validity SnapshotId) :
    md.Shrinks (md.setDeleteFileLife life) where
  fileRows := by
    unfold fileRows setDeleteFileLife
    rw [List.map_map]
    exact List.Subset.refl _
  tablePlaces := List.Subset.refl _
  schemaPlaces := List.Subset.refl _
  externalFiles := List.Subset.refl _

theorem shrinks_dropSchemas (snapshot : SnapshotId) (ids : List SchemaIndex) :
    md.Shrinks (md.dropSchemas snapshot ids) where
  fileRows := List.Subset.refl _
  tablePlaces := List.Subset.refl _
  schemaPlaces := by
    have h : SchemaRow.place ∘ (fun row : SchemaRow => if ids.contains row.schemaId then
        { row with life := row.life.endNow snapshot } else row) = SchemaRow.place := by
      funext row
      simp only [Function.comp_apply]
      split <;> rfl
    unfold schemaPlaces dropSchemas
    rw [List.map_map, h]
    exact List.Subset.refl _
  externalFiles := List.Subset.refl _

theorem shrinks_dropTables (snapshot : SnapshotId) (ids : List TableIndex) (renamed : Bool) :
    md.Shrinks (md.dropTables snapshot ids renamed) := by
  have hplace : TableRow.place ∘ (fun row : TableRow => if ids.contains row.tableId then
      { row with life := row.life.endNow snapshot } else row) = TableRow.place := by
    funext row
    simp only [Function.comp_apply]
    split <;> rfl
  have htables : md.Shrinks { md with
      tables := md.tables.map fun row =>
        if ids.contains row.tableId then { row with life := row.life.endNow snapshot }
        else row } := by
    refine ⟨List.Subset.refl _, ?_, List.Subset.refl _, List.Subset.refl _⟩
    unfold tablePlaces
    rw [List.map_map, hplace]
    exact List.Subset.refl _
  unfold dropTables
  cases renamed with
  | true => exact htables
  | false => exact (htables.trans (shrinks_setDataFileLife _)).trans (shrinks_setDeleteFileLife _)

theorem shrinks_deleteDataFiles (ids : List DataFileIndex) :
    md.Shrinks (md.deleteDataFiles ids) where
  fileRows := by
    apply List.append_subset.mpr
    exact ⟨List.subset_append_of_subset_left _ (List.map_subset _ (List.filter_subset_self _)),
      List.subset_append_right _ _⟩
  tablePlaces := List.Subset.refl _
  schemaPlaces := List.Subset.refl _
  externalFiles := List.Subset.refl _

/-- The rows of delete files may be thinned out. -/
theorem fileRows_subset_of_deleteFiles (hdata : md'.dataFiles = md.dataFiles)
    (hdelete : md'.deleteFiles ⊆ md.deleteFiles) : md'.fileRows ⊆ md.fileRows := by
  unfold fileRows
  rw [hdata]
  exact List.append_subset.mpr ⟨List.subset_append_left _ _,
    List.subset_append_of_subset_right _ (List.map_subset _ hdelete)⟩

theorem shrinks_deleteDeleteFiles (ids : List DataFileIndex) :
    md.Shrinks (md.deleteDeleteFiles ids) where
  fileRows := fileRows_subset_of_deleteFiles rfl (List.filter_subset_self _)
  tablePlaces := List.Subset.refl _
  schemaPlaces := List.Subset.refl _
  externalFiles := List.Subset.refl _

theorem shrinks_deleteDeleteFilesOf (ids : List DataFileIndex) :
    md.Shrinks (md.deleteDeleteFilesOf ids) where
  fileRows := fileRows_subset_of_deleteFiles rfl (List.filter_subset_self _)
  tablePlaces := List.Subset.refl _
  schemaPlaces := List.Subset.refl _
  externalFiles := List.Subset.refl _

theorem shrinks_addScheduled (rows : List ScheduledFileRow) : md.Shrinks (md.addScheduled rows) :=
  ⟨List.Subset.refl _, List.Subset.refl _, List.Subset.refl _, List.Subset.refl _⟩

theorem shrinks_writeDeleteRewrites (rows : List DuckLakeCompactedFileInfo) :
    md.Shrinks (md.writeDeleteRewrites rows) := by
  unfold writeDeleteRewrites
  generalize lastRewriteSnapshot rows = last
  induction rows generalizing md with
  | nil => exact .refl md
  | cons row rows ih =>
    have hrow : md.Shrinks (md.writeDeleteRewrite (last row.tableIndex) row) :=
      ((shrinks_setDeleteFileLife _).trans (shrinks_setDataFileLife _)).trans
        (shrinks_setDataFileLife _)
    exact hrow.trans ih

theorem scheduled_writeDeleteRewrites (rows : List DuckLakeCompactedFileInfo) :
    (md.writeDeleteRewrites rows).filesScheduledForDeletion = md.filesScheduledForDeletion := by
  unfold writeDeleteRewrites
  generalize lastRewriteSnapshot rows = last
  induction rows generalizing md with
  | nil => rfl
  | cons row rows ih => exact ih

theorem scheduled_dropTables (snapshot : SnapshotId) (ids : List TableIndex) (renamed : Bool) :
    (md.dropTables snapshot ids renamed).filesScheduledForDeletion =
      md.filesScheduledForDeletion := by
  cases renamed <;> rfl

end Operations

end Metadata

namespace Metadata

/-! ### One step -/

section OneStep

variable {md md' : Metadata} {settings : CatalogSettings} {snapshot : SnapshotId}

theorem ScheduledUnused.shrink_unscheduled (hmd : md.ScheduledUnused settings)
    (h : md.Shrinks md')
    (hscheduled : md'.filesScheduledForDeletion = md.filesScheduledForDeletion) :
    md'.ScheduledUnused settings := by
  refine hmd.shrink h fun p hp => .inl ?_
  unfold pathsScheduled at hp ⊢
  rwa [hscheduled] at hp

theorem careful_newSchemas (hmd : md.ScheduledUnused settings)
    {rows : List (DuckLakeSchemaInfo × DuckLakePath)}
    (h : md.CarefulStatement settings (.newSchemas rows)) :
    (md.newSchemas snapshot rows).ScheduledUnused settings := by
  refine hmd.grow rfl fun p hp => .inl ?_
  rcases hp with ⟨row, hrow, hp⟩ | hext
  · refine .inl ⟨row, hrow, ?_⟩
    obtain ⟨⟨schema, table⟩, hplace, rfl⟩ := List.mem_map.mp hp
    obtain ⟨ht, hid, hs, hschema⟩ := mem_placesOf.mp hplace
    refine List.mem_map.mpr ⟨(schema, table), mem_placesOf.mpr ⟨ht, hid, ?_, hschema⟩, rfl⟩
    simp only [schemaPlaces, newSchemas, List.map_append, List.map_map, List.mem_append] at hs
    rcases hs with hs | hs
    · exact hs
    · obtain ⟨new, hnew, rfl⟩ := List.mem_map.mp hs
      rcases h new hnew with hold | hfresh
      · exact hold
      · exact absurd hschema.symm (hfresh table ht)
  · exact .inr hext

theorem careful_newTables (hmd : md.ScheduledUnused settings)
    {rows : List (DuckLakeTableInfo × DuckLakePath)}
    (h : md.CarefulStatement settings (.newTables rows)) :
    (md.newTables snapshot rows).ScheduledUnused settings := by
  refine hmd.grow rfl fun p hp => .inl ?_
  rcases hp with ⟨row, hrow, hp⟩ | hext
  · refine .inl ⟨row, hrow, ?_⟩
    obtain ⟨⟨schema, table⟩, hplace, rfl⟩ := List.mem_map.mp hp
    obtain ⟨ht, hid, hs, hschema⟩ := mem_placesOf.mp hplace
    refine List.mem_map.mpr ⟨(schema, table), mem_placesOf.mpr ⟨?_, hid, hs, hschema⟩, rfl⟩
    simp only [tablePlaces, newTables, List.map_append, List.map_map, List.mem_append] at ht
    rcases ht with ht | ht
    · exact ht
    · obtain ⟨new, hnew, rfl⟩ := List.mem_map.mp ht
      rcases h new hnew with hold | hfresh
      · exact hold
      · exact absurd hid.symm (hfresh row hrow)
  · exact .inr hext

/-- New rows of either file table. -/
theorem ScheduledUnused.addRows (hmd : md.ScheduledUnused settings) {new : List FileRow}
    (hnew : ∀ row ∈ new, md.Unscheduled settings row)
    (hrows : ∀ row ∈ md'.fileRows, row ∈ md.fileRows ∨ row ∈ new)
    (htables : md'.tables = md.tables) (hschemas : md'.schemas = md.schemas)
    (hexternal : md'.externalFiles = md.externalFiles)
    (hscheduled : md'.filesScheduledForDeletion = md.filesScheduledForDeletion) :
    md'.ScheduledUnused settings := by
  have hpaths : ∀ row, md'.resolvedPaths settings row = md.resolvedPaths settings row := by
    intro row
    simp only [resolvedPaths, placesOf, tablePlaces, schemaPlaces, htables, hschemas]
  refine hmd.grow hscheduled fun p hp => ?_
  rcases hp with ⟨row, hrow, hp⟩ | hext
  · rw [hpaths] at hp
    rcases hrows row hrow with hold | hadded
    · exact .inl (.inl ⟨row, hold, hp⟩)
    · exact .inr (hnew row hadded p hp)
  · refine .inl (.inr ?_)
    unfold isExternalFile at hext ⊢
    rwa [hexternal] at hext

theorem careful_newDataFiles (hmd : md.ScheduledUnused settings)
    {rows : List (DuckLakeFileInfo × DuckLakePath)}
    (h : md.CarefulStatement settings (.newDataFiles rows))
    (hrun : md.newDataFiles snapshot rows = some md') : md'.ScheduledUnused settings := by
  unfold newDataFiles at hrun
  simp only at hrun
  split at hrun
  · cases hrun
    have hnew : ∀ file ∈ rows.map fun row => (row.1.row row.2 snapshot).fileRow,
        md.Unscheduled settings file := by
      intro file hfile
      obtain ⟨row, hrow, rfl⟩ := List.mem_map.mp hfile
      exact h row hrow
    refine hmd.addRows hnew (fun row hrow => ?_) rfl rfl rfl rfl
    simp only [fileRows, List.map_append, List.map_map, List.mem_append] at hrow ⊢
    rcases hrow with (hrow | hrow) | hrow
    · exact .inl (.inl hrow)
    · exact .inr hrow
    · exact .inl (.inr hrow)
  · cases hrun

theorem careful_newDeleteFiles (hmd : md.ScheduledUnused settings)
    {rows : List (DuckLakeDeleteFileInfo × DuckLakePath)}
    (h : md.CarefulStatement settings (.newDeleteFiles rows))
    (hrun : md.newDeleteFiles snapshot rows = some md') : md'.ScheduledUnused settings := by
  unfold newDeleteFiles at hrun
  simp only at hrun
  split at hrun
  · cases hrun
    have hnew : ∀ file ∈ rows.map fun row => (row.1.row row.2 snapshot).fileRow,
        md.Unscheduled settings file := by
      intro file hfile
      obtain ⟨row, hrow, rfl⟩ := List.mem_map.mp hfile
      exact h row hrow
    refine hmd.addRows hnew (fun row hrow => ?_) rfl rfl rfl rfl
    simp only [fileRows, List.map_append, List.map_map, List.mem_append] at hrow ⊢
    rcases hrow with hrow | hrow | hrow
    · exact .inl (.inl hrow)
    · exact .inl (.inr hrow)
    · exact .inr hrow
  · cases hrun

theorem careful_overwrite (hmd : md.ScheduledUnused settings)
    {rows : List (DuckLakeOverwrittenDeleteFile × DuckLakePath)}
    (h : md.CarefulStatement settings (.deleteOverwrittenDeleteFiles rows)) :
    (md.deleteOverwrittenDeleteFiles rows).ScheduledUnused settings := by
  have hshrinks : md.Shrinks (md.deleteOverwrittenDeleteFiles rows) :=
    (shrinks_deleteDeleteFiles _).trans (shrinks_addScheduled _)
  refine hmd.shrink hshrinks fun p hp => ?_
  rcases mem_pathsScheduled_addScheduled.mp hp with hold | ⟨entry, hentry, rfl⟩
  · exact .inl hold
  · obtain ⟨row, hrow, rfl⟩ := List.mem_map.mp hentry
    exact .inr ((h row hrow).not_inUse hshrinks (List.Subset.refl _))

theorem careful_mergeAdjacent (hmd : md.ScheduledUnused settings)
    {rows : List DuckLakeCompactedFileInfo} {paths : List DuckLakePath}
    (h : md.CarefulStatement settings (.compactions .mergeAdjacentTables rows paths))
    (hrun : md.writeMergeAdjacent rows paths = some md') : md'.ScheduledUnused settings := by
  unfold writeMergeAdjacent at hrun
  split at hrun
  · cases hrun
    have hdelete : md.Shrinks ((md.deleteDataFiles (rows.map (·.sourceId))).deleteDeleteFilesOf
        (rows.map (·.sourceId))) :=
      (shrinks_deleteDataFiles _).trans (shrinks_deleteDeleteFilesOf _)
    have hshrinks := hdelete.trans
      (shrinks_addScheduled (((rows.map (·.sourceId)).zip paths).map fun row => ⟨row.1, row.2⟩))
    refine hmd.shrink hshrinks fun p hp => ?_
    rcases mem_pathsScheduled_addScheduled.mp hp with hold | ⟨entry, hentry, rfl⟩
    · exact .inl hold
    · obtain ⟨row, hrow, rfl⟩ := List.mem_map.mp hentry
      exact .inr ((h row.2 (List.of_mem_zip hrow).2).not_inUse hshrinks (List.Subset.refl _))
  · cases hrun

theorem ScheduledUnused.runStatement {s : Statement} (hmd : md.ScheduledUnused settings)
    (hcareful : md.CarefulStatement settings s) (hrun : md.runStatement snapshot s = some md') :
    md'.ScheduledUnused settings := by
  cases s with
  | newSchemas rows =>
    cases hrun
    exact careful_newSchemas hmd hcareful
  | newTables rows =>
    cases hrun
    exact careful_newTables hmd hcareful
  | newDataFiles rows => exact careful_newDataFiles hmd hcareful hrun
  | newDeleteFiles rows => exact careful_newDeleteFiles hmd hcareful hrun
  | deleteOverwrittenDeleteFiles rows =>
    cases hrun
    exact careful_overwrite hmd hcareful
  | compactions type rows paths =>
    cases type with
    | mergeAdjacentTables => exact careful_mergeAdjacent hmd hcareful hrun
    | rewriteDeletes =>
      cases hrun
      exact hmd.shrink_unscheduled (shrinks_writeDeleteRewrites rows)
        (scheduled_writeDeleteRewrites rows)
  | dropSchemas ids =>
    cases hrun
    exact hmd.shrink_unscheduled (shrinks_dropSchemas snapshot ids) rfl
  | dropTables ids renamed =>
    cases hrun
    exact hmd.shrink_unscheduled (shrinks_dropTables snapshot _ renamed)
      (scheduled_dropTables snapshot _ renamed)
  | dropDataFiles ids =>
    cases hrun
    exact hmd.shrink_unscheduled (shrinks_setDataFileLife _) rfl
  | _ =>
    cases hrun
    exact hmd

end OneStep

section Expire

variable {md md' : Metadata} {settings : CatalogSettings} {snapshot : SnapshotId}
  {ids : List SnapshotId}

theorem shrinks_deleteSnapshots (h : md.deleteSnapshots settings snapshot ids = .ok md') :
    md.Shrinks md' := by
  have hrows := fileRows_eq h
  obtain ⟨files, deletes, -, -, rfl⟩ := deleteSnapshots_ok h
  refine ⟨?_, List.map_subset _ (List.filter_subset_self _),
    List.map_subset _ (List.filter_subset_self _), List.Subset.refl _⟩
  rw [hrows]
  apply List.append_subset.mpr
  exact ⟨List.subset_append_of_subset_left _ (List.map_subset _ (List.filter_subset_self _)),
    List.subset_append_of_subset_right _ (List.map_subset _ (List.filter_subset_self _))⟩

theorem mem_pathsScheduled_deleteSnapshots
    (h : md.deleteSnapshots settings snapshot ids = .ok md') {p : Text} :
    p ∈ md'.pathsScheduled settings ↔
      p ∈ md.pathsScheduled settings ∨ p ∈ md.scheduledPaths md' settings := by
  obtain ⟨added, hadded⟩ : ∃ added, md'.filesScheduledForDeletion =
      md.filesScheduledForDeletion ++ added := by
    obtain ⟨files, deletes, -, -, rfl⟩ := deleteSnapshots_ok h
    exact ⟨_, List.append_assoc _ _ _⟩
  unfold pathsScheduled scheduledPaths
  rw [hadded, List.drop_left, List.map_append, List.mem_append]
  rfl

theorem careful_deleteSnapshots (hmd : md.ScheduledUnused settings)
    (hcareful : (FileStep.deleteSnapshots snapshot ids).Careful settings md)
    (h : md.deleteSnapshots settings snapshot ids = .ok md') : md'.ScheduledUnused settings := by
  refine hmd.shrink (shrinks_deleteSnapshots h) fun p hp => ?_
  rcases (mem_pathsScheduled_deleteSnapshots h).mp hp with hold | hnew
  · exact .inl hold
  · obtain ⟨⟨gone, hgone, hpath⟩, hext⟩ := (mem_scheduledPaths h).mp hnew
    have hkept : ∀ kept ∈ md.keptFileRows (md.retained ids),
        p ∉ md.resolvedPaths settings kept := by
      refine (hcareful gone hgone p hpath).resolve_left ?_
      rw [hext]
      exact Bool.false_ne_true
    exact .inr (OwnedAlone.not_inUse ⟨hext, hkept⟩ (shrinks_deleteSnapshots h)
      (fileRows_eq h ▸ List.Subset.refl _))

end Expire

end Metadata

/-! ## Runs -/

section Runs

variable {settings : CatalogSettings} {md md' : Metadata}

open Metadata

theorem careful_markExternalFiles {paths : List Text} (hmd : md.ScheduledUnused settings)
    (hcareful : (FileStep.markExternalFiles paths).Careful settings md) :
    (md.markExternalFiles paths).ScheduledUnused settings := by
  refine hmd.grow rfl fun p hp => ?_
  rcases hp with hrow | hext
  · exact .inl (.inl hrow)
  · simp only [isExternalFile, markExternalFiles, List.map_append, List.contains_iff_mem,
      List.mem_append] at hext
    rcases hext with hext | hext
    · refine .inl (.inr ?_)
      rwa [isExternalFile, List.contains_iff_mem]
    · right
      intro hp
      obtain ⟨q, hq, heq⟩ := List.mem_map.mp hext
      obtain ⟨path, hpath, rfl⟩ := List.mem_map.mp (List.mem_filter.mp hq).1
      rw [replaceChar_idem (by decide)] at heq
      exact hcareful path hpath p hp heq.symm

/-- One step: what is scheduled stays unused. -/
theorem FileStep.Careful.preserves {step : FileStep} (hcareful : step.Careful settings md)
    (hmd : md.ScheduledUnused settings) (hrun : step.run settings md = some md') :
    md'.ScheduledUnused settings := by
  cases step with
  | statement snapshot s => exact hmd.runStatement hcareful hrun
  | deleteSnapshots snapshot ids =>
    cases h : md.deleteSnapshots settings snapshot ids with
    | error e =>
      rw [FileStep.run, h] at hrun
      cases hrun
    | ok md' =>
      rw [FileStep.run, h] at hrun
      cases hrun
      exact careful_deleteSnapshots hmd hcareful h
  | markExternalFiles paths =>
    cases hrun
    exact careful_markExternalFiles hmd hcareful
  | removeFilesScheduledForCleanup files =>
    cases hrun
    have hshrinks : md.Shrinks (md.removeFilesScheduledForCleanup files) :=
      ⟨List.Subset.refl _, List.Subset.refl _, List.Subset.refl _, List.Subset.refl _⟩
    exact hmd.shrink hshrinks fun p hp =>
      .inl (List.map_subset _ (List.filter_subset_self _) hp)

end Runs

/-- A run of steps none of which fails. -/
def runSteps (settings : CatalogSettings) (md : Metadata) (steps : List FileStep) :
    Option Metadata :=
  steps.foldlM (FileStep.run settings) md

/-- Every step of the run is careful in the state in which it is taken. -/
def CarefulRun (settings : CatalogSettings) : Metadata → List FileStep → Prop
  | _, [] => True
  | md, step :: steps => step.Careful settings md ∧
      ∀ md', step.run settings md = some md' → CarefulRun settings md' steps

theorem CarefulRun.preserves {settings : CatalogSettings} {md md' : Metadata}
    {steps : List FileStep} (hcareful : CarefulRun settings md steps)
    (hmd : md.ScheduledUnused settings) (hrun : runSteps settings md steps = some md') :
    md'.ScheduledUnused settings := by
  induction steps generalizing md with
  | nil =>
    cases hrun
    exact hmd
  | cons step steps ih =>
    rw [runSteps, List.foldlM_cons] at hrun
    obtain ⟨md₁, hstep, hrest⟩ := Option.bind_eq_some_iff.mp hrun
    exact ih (hcareful.2 md₁ hstep) (hcareful.1.preserves hmd hstep) hrest

/-- In a lake that starts with nothing scheduled, no clean-up deletes a file in use as long as all
steps are careful; what is deleted as an orphan never is one. -/
theorem cleanup_sparesUsedFiles (settings : CleanupSettings) (md md' : Metadata)
    (steps : List FileStep) (hstart : md.filesScheduledForDeletion = [])
    (hcareful : CarefulRun settings.toCatalogSettings md steps)
    (hrun : runSteps settings.toCatalogSettings md steps = some md') :
    md'.CleanupSparesUsedFiles settings.toCatalogSettings := by
  have hmd : md.ScheduledUnused settings.toCatalogSettings := by
    intro p hp
    rw [Metadata.pathsScheduled, hstart] at hp
    cases hp
  exact ⟨Metadata.getOldFiles_unused_iff.mpr (hcareful.preserves hmd hrun),
    fun _ _ _ _ h => Metadata.orphans_unused h⟩

/-! ## Shared files -/

theorem tableName_eq_nil : ∀ row ∈ ([] : List InlinedDataTableRow),
    row.tableName = inlinedTableNameFor row.tableId row.schemaVersion := by simp

/-- A lake that was just created. -/
def initialMetadata : Metadata where
  snapshots := [0]
  snapshotProtections := []
  schemas := [⟨0, ⟨0, none⟩, ⟨"main/".toList, true⟩, ["main".toList]⟩]
  tables := []
  columns := []
  columnTags := []
  partitionInfo := []
  partitionColumns := []
  sortInfo := []
  sortExpressions := []
  tableStats := []
  tableColumnStats := []
  schemaVersions := []
  columnMappings := []
  nameMappings := []
  dataFiles := []
  fileColumnStats := []
  fileVariantStats := []
  filePartitionValues := []
  deleteFiles := []
  inlinedDataTables := []
  inlinedData := []
  inlinedDeletions := []
  views := []
  viewColumnTags := []
  tags := []
  macros := []
  macroImpls := []
  macroParameters := []
  procedures := []
  procedureParameters := []
  materializedViews := []
  materializedViewDependencies := []
  externalFiles := []
  filesScheduledForDeletion := []
  dataFileId_nodup := List.nodup_nil
  deleteFileId_nodup := List.nodup_nil
  tableName_eq := tableName_eq_nil

def lakeSettings : CleanupSettings where
  toCatalogSettings := Metadata.localSettings
  separator_eq := .inl rfl

def parquetFile (id : DataFileIndex) : DuckLakeFileInfo where
  id := id
  tableId := 1
  fileName := []
  fileFormat := "parquet"
  rowCount := 1
  fileSizeBytes := 300
  footerSize := none
  rowGroupCount := none
  rowIdStart := some id
  partitionId := none
  beginSnapshot := none
  maxPartialFileSnapshot := none
  encryptionKey := []
  mappingId := none
  columnStats := []
  partitionValues := []

def pathInTable (path : DuckLakePath) : Text :=
  pathThrough Metadata.localSettings ⟨"main/", true⟩ ⟨"a/", true⟩ path

/-- Table `a` is created, two files are registered with it, and they are merged. -/
def mergeTwoFiles (x y : DuckLakePath) : List FileStep :=
  [.statement 1 .insertSnapshot,
    .statement 1 (.newTables [({ id := 1, schemaId := 0, uuid := [], name := "a" },
      ⟨"a/".toList, true⟩)]),
    .statement 2 .insertSnapshot,
    .statement 2 (.newDataFiles [(parquetFile 0, x), (parquetFile 1, y)]),
    .statement 3 .insertSnapshot,
    .statement 3 (.compactions .mergeAdjacentTables
      [{ path := pathInTable x, sourceId := 0, tableIndex := 1, rewriteSnapshot := 3 },
        { path := pathInTable y, sourceId := 1, tableIndex := 1, rewriteSnapshot := 3 }]
      [getRelativePath Metadata.localSettings (pathInTable x),
        getRelativePath Metadata.localSettings (pathInTable y)]),
    .statement 3 (.newDataFiles [(parquetFile 2, ⟨"z.parquet".toList, true⟩)])]

/-- Two files of another catalog are registered and marked as external before they are merged: the
clean-up deletes them. -/
theorem not_sparesUsedFiles_sharedFiles :
    ¬ ∀ (settings : CleanupSettings) (steps : List FileStep) (md' : Metadata),
      runSteps settings.toCatalogSettings initialMetadata steps = some md' →
        md'.CleanupSparesUsedFiles settings.toCatalogSettings := by
  intro h
  have hspares := h lakeSettings
    (.markExternalFiles ["/s/x.parquet".toList, "/s/y.parquet".toList] ::
      mergeTwoFiles ⟨"/s/x.parquet".toList, false⟩ ⟨"/s/y.parquet".toList, false⟩) _ rfl
  exact hspares.1 (fun _ => true) ⟨0, "/s/x.parquet".toList⟩ (by decide) (.inr (by decide))

/-- Files that the lake has written itself may be merged. -/
theorem sparesUsedFiles_ownFiles :
    ∃ md', runSteps Metadata.localSettings initialMetadata
        (mergeTwoFiles ⟨"x.parquet".toList, true⟩ ⟨"y.parquet".toList, true⟩) = some md' ∧
      md'.CleanupSparesUsedFiles Metadata.localSettings := by
  refine ⟨_, rfl, cleanup_sparesUsedFiles lakeSettings initialMetadata _
    (mergeTwoFiles ⟨"x.parquet".toList, true⟩ ⟨"y.parquet".toList, true⟩) rfl ?_ rfl⟩
  refine ⟨trivial, fun _ h => ?_⟩
  cases h
  refine ⟨fun row _ => .inr nofun, fun _ h => ?_⟩
  cases h
  refine ⟨trivial, fun _ h => ?_⟩
  cases h
  refine ⟨fun _ _ _ _ => List.not_mem_nil, fun _ h => ?_⟩
  cases h
  refine ⟨trivial, fun _ h => ?_⟩
  cases h
  refine ⟨?_, fun _ h => ?_⟩
  · change ∀ path ∈ _, _
    decide
  cases h
  refine ⟨?_, fun _ _ => trivial⟩
  change ∀ row ∈ _, _
  decide

end DuckLake
