import ConfigVetting.Cache.Documents
import ConfigVetting.Staging.Edits

/-! # Dependent data

The rows that a check needs beside its subject: whole tables that must rules name or that leafrefs
lead to, and single rows where a leafref leads to the only key of a table. A table wanted whole brings
in the tables that its own must rules name. All rows are taken as the session sees them, with its
staged edits laid over what is stored.
-/

namespace ConfigVetting

/-- What is wanted of a table. -/
inductive Want where
  | whole
  | rows (keys : Names)

/-- What is wanted, by table. -/
abbrev Wants := ByName Want

namespace Want

/-- Whether the whole table is wanted. -/
def isWhole : Want → Bool
  | whole => true
  | rows _ => false

/-- What two wants of one table come to. -/
def join : Want → Want → Want
  | rows first, rows second => rows (first ∪ second)
  | _, _ => whole

end Want

namespace Wants

/-- The wants with one more. -/
def add (wants : Wants) (table : String) (want : Want) : Wants :=
  wants.alter table fun
    | none => some want
    | some earlier => some (earlier.join want)

/-- One more want is at most one more table. -/
theorem size_add_le (wants : Wants) (table : String) (want : Want) :
    (wants.add table want).size ≤ wants.size + 1 := by
  simp only [add, Std.ExtTreeMap.size_alter]
  repeat' split
  all_goals omega

end Wants

namespace Dependency

/-- Whether a field is the only component of the keys of a table, and holds a single value. -/
def isSingleKey (table : TableSchema) (field : String) : Bool :=
  table.segments = [⟨field, false⟩]

/-- The wants of tables as a whole. -/
def wantWhole (wants : Wants) (tables : List String) : Wants :=
  tables.foldl (fun wants table => wants.add table .whole) wants

/-- Wanting tables as a whole adds at most those tables. -/
theorem size_wantWhole_le (wants : Wants) (tables : List String) :
    (wantWhole wants tables).size ≤ wants.size + tables.length := by
  induction tables generalizing wants with
  | nil => exact Nat.le_refl _
  | cons table tables ih =>
    have rest := ih (wants.add table .whole)
    have first := wants.size_add_le table .whole
    rw [List.length_cons]
    exact Nat.le_trans rest (by omega)

/-- What the checks of a table may want. -/
def wantsOfTable (schema : Schema) (table : String) : Wants :=
  wantWhole ∅ (schema.requiredTables table).toList

/-- The non-empty values that the list instances of a table hold in a field. -/
def valuesIn {σ : Type} (subject : Forest σ) (table field : String) : Names :=
  ((subject.listInstances table).flatMap fun node => node.leafValues field).foldl
    (fun values value => if value.isEmpty then values else values.insert value) ∅

/-- The wants with those of the values of a leaf. -/
def wantTargets (schema : Schema) (wants : Wants) (targets : List LeafrefTarget) (values : Names) :
    Wants :=
  if values.isEmpty then wants
  else targets.foldl (fun wants target =>
    match schema.table? target.table with
    | none => wants
    | some table =>
      wants.add target.table (if isSingleKey table target.leaf then .rows values else .whole)) wants

/-- The names of the tables that a subject holds. -/
def subjectTables {σ : Type} (subject : Forest σ) : Names :=
  (subject.flatMap Node.children).foldl (fun names container => names.insert container.name) ∅

/-- What the checks of a subject want. -/
def wantsOfSubject {σ : Type} (schema : Schema) (subject : Forest σ) : Except Rejection Wants :=
  (subjectTables subject).toList.foldlM (fun wants name => do
    let table ← schema.knownTable name
    return table.leaves.toList.foldl (fun wants (field, leaf) =>
        wantTargets schema wants leaf.targets (valuesIn subject table.name field))
      (wantWhole wants table.dependentTables.toList)) ∅

/-- The order in which wanted data is loaded: always the first table by name, and with a table that
is wanted whole the tables that its must rules name, unless they are in whole already. `remaining`
holds the tables that are not. A table that the schema does not have is kept, to be rejected in its
turn. -/
def order (schema : Schema) (remaining : Names) (wants : Wants) : List (String × Want) :=
  match first : wants.keys.head? with
  | none => []
  | some name =>
    have := ByName.size_erase_lt (Std.ExtTreeMap.mem_keys.1 (List.mem_of_head? first))
    let want := wants[name]?.getD .whole
    let others := wants.erase name
    match schema.table? name with
    | none => (name, want) :: order schema remaining others
    | some table =>
      if known : name ∈ remaining then
        have := Names.size_erase_lt known
        match want with
        | .rows _ => (name, want) :: order schema remaining others
        | .whole =>
          let rest := remaining.erase name
          (name, want) :: order schema rest (wantWhole others (rest ∩ table.dependentTables).toList)
      else order schema remaining others
termination_by remaining.size * remaining.size + wants.size
decreasing_by
  all_goals try omega
  have smaller : rest.size < remaining.size := by assumption
  have named : (rest ∩ table.dependentTables).toList.length ≤ rest.size := by
    rw [Std.ExtTreeSet.length_toList]
    exact Std.ExtTreeSet.size_inter_le_size_left
  have wider := size_wantWhole_le others (rest ∩ table.dependentTables).toList
  have square : rest.size * rest.size + rest.size ≤ remaining.size * remaining.size := by
    calc rest.size * rest.size + rest.size
        = rest.size * (rest.size + 1) := by rw [Nat.mul_add, Nat.mul_one]
      _ ≤ remaining.size * remaining.size := Nat.mul_le_mul (Nat.le_of_lt smaller) smaller
  change rest.size * rest.size + (wantWhole others (rest ∩ table.dependentTables).toList).size <
    remaining.size * remaining.size + wants.size
  have fewer : others.size < wants.size := by assumption
  omega

/-- The row keys to fetch for wanted ones: not those that staged edits tell all about, but those of
rows that they change. -/
def keysToFetch (keys : Names) (states : ByName RowState) : List String :=
  (states.toList.foldl (fun keys (rowKey, state) =>
    match state with
    | .overlay _ => keys.insert rowKey
    | _ => keys.erase rowKey) keys).toList

/-- Rows as staged edits leave them: those that the edits tell all about, and what was fetched. -/
def rowsAfter (states : ByName RowState) (fetched : List (String × Option Fields)) : KeyedRows :=
  let rows : KeyedRows := states.toList.foldl (fun rows (rowKey, state) =>
    match state with
    | .present fields => rows.insert rowKey fields
    | _ => rows) ∅
  fetched.foldl (fun rows (rowKey, fields) =>
    match fields with
    | none => rows
    | some fields =>
      match states[rowKey]? with
      | some (.overlay patch) => rows.insert rowKey (patch.apply fields)
      | _ => rows.insert rowKey fields) rows

/-- Where dependent data is taken from. -/
structure Source where
  setting : Setting
  staged : StagedEdits
  /-- Whether whole tables are taken from the cache if it has them. -/
  useCache : Bool := true
  /-- How many rows are read from the store in one batch. -/
  batchSize : Nat := setting.batchSize

/-- The wanted row keys with what was fetched for each of them. The first one that nothing was fetched for,
not even that its row is absent, is left unresolved. -/
def resolve (table : TableSchema) (wanted : List String) (fetched : List (Option Fields)) :
    Except Rejection (List (String × Option Fields)) :=
  match wanted.drop fetched.length with
  | [] => .ok (wanted.zip fetched)
  | rowKey :: _ => .error (.internal s!"Row '{rowKey}' of '{table.name}' left unresolved")

/-- The document of rows of a table as staged edits leave what was fetched for the wanted ones. -/
def ofFetched (schema : Schema) (table : TableSchema) (states : ByName RowState) (wanted : List String)
    (fetched : List (Option Fields)) : Except Rejection Document := do
  let resolved ← resolve table wanted fetched
  Document.ofRows schema ((∅ : TableRows).insert table.name (rowsAfter states resolved))

/-- The document of rows of a table as staged edits leave them. -/
def loadRows (source : Source) (table : TableSchema) (keys : Names) (states : ByName RowState) :
    WorldM Document := do
  let wanted := keysToFetch keys states
  let fetched ← World.askStore (Store.fetch (wanted.map table.storeKey) source.batchSize)
  if !wanted.isEmpty then
    World.note .fetchBatch [("keys", toString wanted.length), ("table", table.name)]
  (ofFetched source.setting.schema table states wanted fetched : Except Rejection _)

/-- The states of the staged rows of a table. -/
def statesOf (staged : StagedEdits) (table : String) : ByName RowState :=
  (staged.rows table).foldl (fun states (rowKey, state) => states.insert rowKey state) ∅

/-- The document of a whole table as staged edits leave it, read from the store. -/
def loadStored (source : Source) (table : TableSchema) : WorldM Document := do
  let keys ← World.askStore (Store.keys table.storeStart)
  let rowKeys := (keys.filterMap table.rowKey?).foldl (fun keys key => keys.insert key) ∅
  loadRows source table rowKeys (statesOf source.staged table.name)

/-- The document of a whole table as staged edits leave it, from the cache if it is to be used and
has the table. -/
def loadWhole (source : Source) (table : TableSchema) : WorldM Document := do
  if source.useCache then
    match ← Cache.read source.setting table.name with
    | none => loadStored source table
    | some document =>
      (document.changed ((source.staged.rows table.name).forM fun (rowKey, state) =>
        Document.overlayRow source.setting.schema table rowKey state) : Except Rejection _)
  else loadStored source table

/-- The document of what is wanted of a table. -/
def load (source : Source) (name : String) (want : Want) : WorldM Document := do
  let table ← (source.setting.schema.knownTable name : Except Rejection _)
  match want with
  | .whole => loadWhole source table
  | .rows keys =>
    loadRows source table keys ((statesOf source.staged name).filter fun rowKey _ => rowKey ∈ keys)

/-- The document of all that is wanted and of what that brings in. -/
def assemble (source : Source) (wants : Wants) : WorldM Document := do
  let schema := source.setting.schema
  let known := schema.tables.keys.foldl (fun names name => names.insert name) ∅
  let loads := order schema known wants
  let document ← loads.foldlM (fun document (name, want) => do
    return document.merge (← load source name want).roots) Document.empty
  World.note .dependenciesResolved [("rounds", toString loads.length),
    ("whole_tables", toString (loads.countP fun (_, want) => want.isWhole))]
  return document

/-- The dependent data for the checks of a table. -/
def ofTable (source : Source) (name : String) : WorldM Document := do
  discard (source.setting.schema.knownTable name : Except Rejection _)
  assemble source (wantsOfTable source.setting.schema name)

/-- The dependent data for the checks of a subject. -/
def ofSubject {σ : Type} (source : Source) (subject : Forest σ) : WorldM Document := do
  let wants ← (wantsOfSubject source.setting.schema subject : Except Rejection _)
  assemble source wants

end Dependency

end ConfigVetting
