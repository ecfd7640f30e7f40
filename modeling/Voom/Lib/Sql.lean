-- SUMMARY: Database layouts under scripts of SQL statements, and a static check that a script succeeds.
import Mathlib.Data.List.Pairwise
import Voom.Lib.Table

/-!
# Scripts

A database as the tables with their columns and rows, and the indexes. A script
is a list of guarded steps, as a migration is. `Known` is what is known of a
database before a step; `check` carries it along a script and accepts the script
only if no statement can fail (`check_sound`), and `noop` accepts the steps that
what is known makes superfluous (`noop_sound`).
-/

namespace Voom.Lib.Sql

/-! ## Databases -/

inductive Value where
  | null
  | integer (n : Int)
  | real (q : Rat)
  | infinity (negative : Bool)
  | text (s : String)
  | blob (bytes : List UInt8)
  deriving DecidableEq, Repr

/-- The value of each column. -/
abbrev Row := String → Value

structure Table where
  name : String
  columns : List String
  rows : List Row := []

namespace Table

def addColumn (t : Table) (column : String) (default : Value) : Table :=
  { t with columns := t.columns ++ [column]
           rows := t.rows.map fun r => Function.update r column default }

def update (t : Table) (f : List Row → Row → Row) : Table :=
  { t with rows := t.rows.map (f t.rows) }

def delete (t : Table) (keep : List Row → Row → Bool) : Table :=
  { t with rows := t.rows.filter (keep t.rows) }

end Table

structure Index where
  name : String
  table : String
  columns : List String
  unique : Bool := false
  deriving DecidableEq, Repr

structure Database where
  tables : List Table := []
  indexes : List Index := []

inductive SqlError where
  | noSuchTable (table : String)
  | noSuchColumn (table column : String)
  | duplicateColumn (table column : String)
  | uniqueConstraint (index : String)
  deriving DecidableEq, Repr

namespace Database

variable (db : Database)

def table (name : String) : Option Table :=
  db.tables.find? fun t => t.name = name

def hasTable (name : String) : Bool :=
  db.tables.any fun t => t.name = name

def hasColumn (table column : String) : Bool :=
  db.tables.any fun t => t.name = table && t.columns.contains column

def hasIndex (name : String) : Bool :=
  db.indexes.any fun ix => ix.name = name

def modifyTable (name : String) (f : Table → Table) : Database :=
  { db with tables := Lib.Table.modify Table.name name f db.tables }

variable {db}

theorem hasTable_iff {name : String} : db.hasTable name = true ↔ ∃ t ∈ db.tables, t.name = name := by
  simp [hasTable]

theorem hasTable_eq_false_iff {name : String} :
    db.hasTable name = false ↔ ∀ t ∈ db.tables, t.name ≠ name := by
  simp [hasTable]

theorem hasColumn_iff {table column : String} :
    db.hasColumn table column = true ↔ ∃ t ∈ db.tables, t.name = table ∧ column ∈ t.columns := by
  simp [hasColumn]

theorem hasIndex_iff {name : String} : db.hasIndex name = true ↔ ∃ ix ∈ db.indexes, ix.name = name := by
  simp [hasIndex]

theorem table_eq_some {name : String} {t : Table} (h : db.table name = some t) :
    t ∈ db.tables ∧ t.name = name :=
  ⟨List.mem_of_find?_eq_some h, by simpa using List.find?_some h⟩

theorem table_of_hasTable {name : String} (h : db.hasTable name = true) :
    ∃ t, db.table name = some t := by
  obtain ⟨t, ht, hname⟩ := hasTable_iff.mp h
  exact Option.isSome_iff_exists.mp (List.find?_isSome.mpr ⟨t, ht, by simpa using hname⟩)

theorem table_modifyTable {name : String} {f : Table → Table} (hf : ∀ t, (f t).name = t.name)
    (n : String) :
    (db.modifyTable name f).table n =
      (db.table n).map fun t => if t.name = name then f t else t := by
  simp only [table, modifyTable, Lib.Table.modify, List.find?_map]
  congr 2
  funext t
  simp only [Function.comp]
  split
  · rw [hf]
  · rfl

theorem hasTable_modifyTable {name : String} {f : Table → Table} (hf : ∀ t, (f t).name = t.name)
    (n : String) : (db.modifyTable name f).hasTable n = db.hasTable n := by
  simp only [hasTable, modifyTable, Lib.Table.modify, List.any_map]
  congr 1
  funext t
  simp only [Function.comp]
  split
  · rw [hf]
  · rfl

theorem modifyTable_eq_self {name : String} {f : Table → Table}
    (h : ∀ t ∈ db.tables, t.name = name → f t = t) : db.modifyTable name f = db := by
  have hmap : Lib.Table.modify Table.name name f db.tables = db.tables := by
    refine (List.map_congr_left (g := fun t => t) fun t ht => ?_).trans (List.map_id' _)
    split
    · exact h t ht ‹_›
    · rfl
  rw [modifyTable, hmap]

end Database

/-- Two rows with the same values in the columns, none of them null. -/
def Row.clashes (columns : List String) (r r' : Row) : Bool :=
  columns.all fun c => r c = r' c && r c ≠ .null

/-- Whether no two rows clash. -/
def distinct (columns : List String) (rows : List Row) : Prop :=
  rows.Pairwise fun r r' => Row.clashes columns r r' = false

instance (columns : List String) (rows : List Row) : Decidable (distinct columns rows) :=
  inferInstanceAs (Decidable (rows.Pairwise _))

/-! ## Statements -/

inductive Stmt where
  /-- `CREATE TABLE IF NOT EXISTS`. -/
  | createTable (name : String) (columns : List String)
  /-- `CREATE INDEX IF NOT EXISTS`; a unique index ignores nulls. -/
  | createIndex (index : Index)
  /-- `ALTER TABLE .. ADD COLUMN` with its default. -/
  | addColumn (table column : String) (default : Value)
  /-- `DROP TABLE IF EXISTS`; the indexes of the table go with it. -/
  | dropTable (name : String)
  /-- `UPDATE`: a row changes depending on all rows from before. -/
  | update (table : String) (f : List Row → Row → Row)
  /-- `DELETE`: the rows that stay, depending on all rows from before. -/
  | delete (table : String) (keep : List Row → Row → Bool)

def exec (db : Database) : Stmt → Except SqlError Database
  | .createTable name columns =>
    if db.hasTable name then .ok db
    else .ok { db with tables := db.tables ++ [{ name, columns }] }
  | .createIndex ix =>
    match db.table ix.table with
    | none => .error (.noSuchTable ix.table)
    | some t =>
      if db.hasIndex ix.name then .ok db
      else
        match ix.columns.find? fun c => !t.columns.contains c with
        | some c => .error (.noSuchColumn ix.table c)
        | none =>
          if ix.unique ∧ ¬ distinct ix.columns t.rows then .error (.uniqueConstraint ix.name)
          else .ok { db with indexes := db.indexes ++ [ix] }
  | .addColumn table column default =>
    match db.table table with
    | none => .error (.noSuchTable table)
    | some t =>
      if t.columns.contains column then .error (.duplicateColumn table column)
      else
        .ok (db.modifyTable table (·.addColumn column default))
  | .dropTable name =>
    if db.hasTable name then
      .ok { tables := Lib.Table.delete Table.name name db.tables
            indexes := db.indexes.filter fun ix => ix.table ≠ name }
    else .ok db
  | .update table f =>
    match db.table table with
    | none => .error (.noSuchTable table)
    | some _ => .ok (db.modifyTable table (·.update f))
  | .delete table keep =>
    match db.table table with
    | none => .error (.noSuchTable table)
    | some _ => .ok (db.modifyTable table (·.delete keep))

/-- Execute statements in order, up to the first that fails. -/
def execAll : List Stmt → Database → Except SqlError Database
  | [], db => .ok db
  | s :: rest, db =>
    match exec db s with
    | .error e => .error e
    | .ok db => execAll rest db

theorem execAll_cons_ok {s : Stmt} {rest : List Stmt} {db db' : Database}
    (h : execAll (s :: rest) db = .ok db') :
    ∃ db₁, exec db s = .ok db₁ ∧ execAll rest db₁ = .ok db' := by
  simp only [execAll] at h
  split at h
  · cases h
  · exact ⟨_, ‹_›, h⟩

/-- What an executed statement did. -/
inductive Effect (db : Database) : Stmt → Database → Prop where
  | tableExists {name columns} (h : db.hasTable name = true) :
      Effect db (.createTable name columns) db
  | tableCreated {name columns} (h : db.hasTable name = false) :
      Effect db (.createTable name columns)
        { db with tables := db.tables ++ [{ name, columns }] }
  | indexExists {ix : Index} (h : db.hasIndex ix.name = true) : Effect db (.createIndex ix) db
  | indexCreated {ix : Index} {t : Table} (ht : db.table ix.table = some t)
      (hcolumns : ∀ c ∈ ix.columns, c ∈ t.columns)
      (hunique : ix.unique = true → distinct ix.columns t.rows) :
      Effect db (.createIndex ix) { db with indexes := db.indexes ++ [ix] }
  | columnAdded {table column default} {t : Table} (ht : db.table table = some t)
      (hcolumn : column ∉ t.columns) :
      Effect db (.addColumn table column default)
        (db.modifyTable table (·.addColumn column default))
  | tableDropped {name} :
      Effect db (.dropTable name)
        { tables := Lib.Table.delete Table.name name db.tables
          indexes := db.indexes.filter fun ix => ix.table ≠ name }
  | tableMissing {name} (h : db.hasTable name = false) : Effect db (.dropTable name) db
  | rowsUpdated {table f} : Effect db (.update table f) (db.modifyTable table (·.update f))
  | rowsDeleted {table keep} : Effect db (.delete table keep) (db.modifyTable table (·.delete keep))

theorem exec_effect {db db' : Database} {s : Stmt} (h : exec db s = .ok db') :
    Effect db s db' := by
  cases s with
  | createTable name columns =>
    simp only [exec] at h
    split at h
    · obtain rfl := Except.ok.inj h
      exact .tableExists ‹_›
    · obtain rfl := Except.ok.inj h
      exact .tableCreated (Bool.eq_false_iff.mpr ‹_›)
  | createIndex ix =>
    simp only [exec] at h
    split at h
    · cases h
    rename_i t ht
    split at h
    · obtain rfl := Except.ok.inj h
      exact .indexExists ‹_›
    split at h
    · cases h
    rename_i hfind
    split at h
    · cases h
    rename_i hunique
    obtain rfl := Except.ok.inj h
    refine .indexCreated ht (fun c hc => ?_) (fun hu => ?_)
    · simpa using List.find?_eq_none.mp hfind c hc
    · exact not_not.mp fun hd => hunique ⟨hu, hd⟩
  | addColumn table column default =>
    simp only [exec] at h
    split at h
    · cases h
    rename_i t ht
    split at h
    · cases h
    rename_i hcolumn
    obtain rfl := Except.ok.inj h
    exact .columnAdded ht (by simpa using hcolumn)
  | dropTable name =>
    simp only [exec] at h
    split at h
    · obtain rfl := Except.ok.inj h
      exact .tableDropped
    · obtain rfl := Except.ok.inj h
      exact .tableMissing (Bool.eq_false_iff.mpr ‹_›)
  | update table f =>
    simp only [exec] at h
    split at h
    · cases h
    obtain rfl := Except.ok.inj h
    exact .rowsUpdated
  | delete table keep =>
    simp only [exec] at h
    split at h
    · cases h
    obtain rfl := Except.ok.inj h
    exact .rowsDeleted

/-! ## Guarded steps -/

inductive Guard where
  | tableExists (name : String)
  | someTableMissing (names : List String)
  | columnMissing (table column : String)
  | columnPresent (table column : String)
  | indexMissing (name : String)
  | someRow (table : String) (p : Row → Bool)

def Guard.holds (db : Database) : Guard → Bool
  | .tableExists name => db.hasTable name
  | .someTableMissing names => names.any fun name => !db.hasTable name
  | .columnMissing table column => !db.hasColumn table column
  | .columnPresent table column => db.hasColumn table column
  | .indexMissing name => !db.hasIndex name
  | .someRow table p => db.tables.any fun t => t.name = table && t.rows.any p

structure Step where
  guards : List Guard := []
  body : List Stmt

def Step.run (step : Step) (db : Database) : Except SqlError Database :=
  if step.guards.all (·.holds db) then execAll step.body db else .ok db

def run : List Step → Database → Except SqlError Database
  | [], db => .ok db
  | step :: rest, db =>
    match step.run db with
    | .error e => .error e
    | .ok db => run rest db

theorem run_cons_ok {step : Step} {rest : List Step} {db db' : Database}
    (h : run (step :: rest) db = .ok db') :
    ∃ db₁, step.run db = .ok db₁ ∧ run rest db₁ = .ok db' := by
  simp only [run] at h
  split at h
  · cases h
  · exact ⟨_, ‹_›, h⟩

theorem run_append {a b : List Step} {db db₁ : Database} (h : run a db = .ok db₁) :
    run (a ++ b) db = run b db₁ := by
  induction a generalizing db with
  | nil => rw [Except.ok.inj h, List.nil_append]
  | cons step a ih =>
    obtain ⟨db₂, hstep, hrest⟩ := run_cons_ok h
    simp only [List.cons_append, run, hstep]
    exact ih hrest

theorem run_append_ok {a b : List Step} {db db' : Database} (h : run (a ++ b) db = .ok db') :
    ∃ db₁, run a db = .ok db₁ ∧ run b db₁ = .ok db' := by
  induction a generalizing db with
  | nil => exact ⟨db, rfl, h⟩
  | cons step a ih =>
    obtain ⟨db₂, hstep, hrest⟩ := run_cons_ok h
    obtain ⟨db₁, ha, hb⟩ := ih hrest
    exact ⟨db₁, by simp only [run, hstep, ha], hb⟩

/-! ## What is known of a database -/

inductive Fact where
  | table (name : String)
  | noTable (name : String)
  /-- The table, if it exists, has the columns. -/
  | columns (table : String) (columns : List String)
  | noColumn (table column : String)
  | index (index : Index)
  | distinct (table : String) (columns : List String)
  /-- The column holds integers. -/
  | integer (table column : String)
  deriving DecidableEq

def Fact.holds (db : Database) : Fact → Prop
  | .table n => db.hasTable n = true
  | .noTable n => db.hasTable n = false
  | .columns n cs => ∀ t ∈ db.tables, t.name = n → ∀ c ∈ cs, c ∈ t.columns
  | .noColumn n c => ∀ t ∈ db.tables, t.name = n → c ∉ t.columns
  | .index ix => ix ∈ db.indexes
  | .distinct n cs => ∀ t ∈ db.tables, t.name = n → Sql.distinct cs t.rows
  | .integer n c => ∀ t ∈ db.tables, t.name = n → ∀ r ∈ t.rows, ∃ i, r c = .integer i

/-- A fact about tables, columns and indexes, whatever the rows. -/
def Fact.isLayout : Fact → Bool
  | .distinct _ _ | .integer _ _ => false
  | .table _ | .noTable _ | .columns _ _ | .noColumn _ _ | .index _ => true

abbrev Known := List Fact

def Known.hasColumn (k : Known) (table column : String) : Bool :=
  k.any fun
    | .columns n cs => n = table && cs.contains column
    | _ => false

/-- An index with the name of a definition is as defined. -/
def Named (defs : List Index) (db : Database) : Prop :=
  ∀ ix ∈ db.indexes, ∀ d ∈ defs, ix.name = d.name → ix = d

theorem Known.mem_of_hasColumn {k : Known} {db : Database} {n c : String}
    (hk : ∀ f ∈ k, f.holds db) (h : k.hasColumn n c = true) :
    ∀ t ∈ db.tables, t.name = n → c ∈ t.columns := by
  intro t ht hname
  obtain ⟨f, hf, hfc⟩ := List.any_eq_true.mp h
  cases f with
  | columns n' cs =>
    simp only [Bool.and_eq_true, decide_eq_true_eq, List.contains_iff_mem] at hfc
    exact hk _ hf t ht (hname.trans hfc.1.symm) c hfc.2
  | table | noTable | noColumn | index | distinct | integer => cases hfc

structure Sound (defs : List Index) (k : Known) (db : Database) : Prop where
  keyed : Lib.Table.Keyed Table.name db.tables
  named : Named defs db
  facts : ∀ f ∈ k, f.holds db

theorem Sound.mono {defs : List Index} {k k' : Known} {db : Database} (h : Sound defs k db)
    (hk : ∀ f ∈ k', f ∈ k) : Sound defs k' db :=
  ⟨h.keyed, h.named, fun f hf => h.facts f (hk f hf)⟩

theorem Sound.cons {defs : List Index} {k : Known} {db : Database} {f : Fact}
    (h : Sound defs k db) (hf : f.holds db) : Sound defs (f :: k) db := by
  refine ⟨h.keyed, h.named, ?_⟩
  rw [List.forall_mem_cons]
  exact ⟨hf, h.facts⟩

/-! ### Databases that differ in their rows -/

/-- The same tables, columns and indexes. -/
structure SameLayout (db db' : Database) : Prop where
  tables : db'.tables.map (fun t => (t.name, t.columns)) =
    db.tables.map fun t => (t.name, t.columns)
  indexes : db'.indexes = db.indexes

namespace SameLayout

variable {db db' : Database}

theorem refl (db : Database) : SameLayout db db := ⟨rfl, rfl⟩

theorem trans {db'' : Database} (h : SameLayout db db') (h' : SameLayout db' db'') :
    SameLayout db db'' :=
  ⟨h'.tables.trans h.tables, h'.indexes.trans h.indexes⟩

/-- Changing the rows of a table. -/
theorem modifyTable (name : String) {f : Table → Table} (hname : ∀ t, (f t).name = t.name)
    (hcolumns : ∀ t, (f t).columns = t.columns) : SameLayout db (db.modifyTable name f) where
  tables := by
    simp only [Database.modifyTable, Lib.Table.modify, List.map_map]
    apply List.map_congr_left
    intro t _
    simp only [Function.comp]
    split
    · rw [hname, hcolumns]
    · rfl
  indexes := rfl

theorem exists_table (h : SameLayout db db') {t : Table} (ht : t ∈ db'.tables) :
    ∃ t₀ ∈ db.tables, t₀.name = t.name ∧ t₀.columns = t.columns := by
  have hmem : (t.name, t.columns) ∈ db.tables.map fun t => (t.name, t.columns) := by
    rw [← h.tables]
    exact List.mem_map.mpr ⟨t, ht, rfl⟩
  obtain ⟨t₀, ht₀, heq⟩ := List.mem_map.mp hmem
  exact ⟨t₀, ht₀, congrArg Prod.fst heq, congrArg Prod.snd heq⟩

theorem names (h : SameLayout db db') : db'.tables.map Table.name = db.tables.map Table.name := by
  have hfst := congrArg (List.map Prod.fst) h.tables
  simpa [List.map_map, Function.comp_def] using hfst

theorem hasTable (h : SameLayout db db') (name : String) : db'.hasTable name = db.hasTable name := by
  have hany (db : Database) : db.hasTable name = (db.tables.map Table.name).any (· = name) := by
    simp [Database.hasTable, List.any_map, Function.comp_def]
  rw [hany, hany, h.names]

theorem holds (h : SameLayout db db') {f : Fact} (hlayout : f.isLayout = true)
    (hf : f.holds db) : f.holds db' := by
  cases f with
  | table n | noTable n => exact (h.hasTable n).trans hf
  | columns n cs =>
    intro t ht hname
    obtain ⟨t₀, ht₀, hname₀, hcolumns⟩ := h.exists_table ht
    rw [← hcolumns]
    exact hf t₀ ht₀ (hname₀.trans hname)
  | noColumn n c =>
    intro t ht hname
    obtain ⟨t₀, ht₀, hname₀, hcolumns⟩ := h.exists_table ht
    rw [← hcolumns]
    exact hf t₀ ht₀ (hname₀.trans hname)
  | index ix =>
    show ix ∈ db'.indexes
    rw [h.indexes]
    exact hf
  | distinct | integer => cases hlayout

theorem sound (h : SameLayout db db') {defs : List Index} {k : Known}
    (hk : ∀ f ∈ k, f.isLayout = true) (hs : Sound defs k db) : Sound defs k db' where
  keyed := by
    unfold Lib.Table.Keyed
    rw [h.names]
    exact hs.keyed
  named := by
    intro ix hix
    rw [h.indexes] at hix
    exact hs.named ix hix
  facts f hf := h.holds (hk f hf) (hs.facts f hf)

end SameLayout

/-! ### Statements -/

/-- A statement after which the fact still holds. -/
def Stmt.keeps : Stmt → Fact → Bool
  | .createTable n _, .noTable n' => n' ≠ n
  | .createTable n columns, .columns n' cs => n' ≠ n || cs.all columns.contains
  | .createTable n columns, .noColumn n' c => n' ≠ n || !columns.contains c
  | .addColumn n c _, .noColumn n' c' => n' ≠ n || c' ≠ c
  | .addColumn n c _, .distinct n' columns => n' ≠ n || !columns.contains c
  | .addColumn n c _, .integer n' c' => n' ≠ n || c' ≠ c
  | .dropTable n, .table n' => n' ≠ n
  | .dropTable n, .index ix => ix.table ≠ n
  | .update n _, .distinct n' _ => n' ≠ n
  | .update n _, .integer n' _ => n' ≠ n
  | _, _ => true

/-- What holds after the statement. -/
def Stmt.gains : Stmt → Known
  | .createTable n _ => [.table n]
  | .createIndex ix => [.index ix]
  | .addColumn n c _ => [.columns n [c]]
  | .dropTable n => [.noTable n]
  | .update _ _ | .delete _ _ => []

/-- A statement that cannot fail. -/
def Stmt.ready (defs : List Index) (k : Known) : Stmt → Bool
  | .createTable _ _ | .dropTable _ => true
  | .createIndex ix =>
    k.contains (.table ix.table) && ix.columns.all (k.hasColumn ix.table) &&
      (!ix.unique || k.contains (.distinct ix.table ix.columns)) && defs.contains ix
  | .addColumn n c _ => k.contains (.table n) && k.contains (.noColumn n c)
  | .update n _ | .delete n _ => k.contains (.table n)

/-! ## Statements and what is known -/

theorem clashes_update {columns : List String} {c : String} (hc : c ∉ columns) (v : Value)
    (r r' : Row) :
    Row.clashes columns (Function.update r c v) (Function.update r' c v) =
      Row.clashes columns r r' := by
  rw [Bool.eq_iff_iff]
  simp only [Row.clashes, List.all_eq_true]
  refine forall₂_congr fun c' hc' => ?_
  have hne : c' ≠ c := fun h => hc (h ▸ hc')
  simp [hne]

theorem clashes_comm (columns : List String) (r r' : Row) :
    Row.clashes columns r r' = Row.clashes columns r' r := by
  rw [Bool.eq_iff_iff]
  simp only [Row.clashes, List.all_eq_true]
  refine forall₂_congr fun c _ => ?_
  simp only [Bool.and_eq_true, decide_eq_true_eq]
  constructor
  · rintro ⟨h, hnull⟩
    exact ⟨h.symm, h ▸ hnull⟩
  · rintro ⟨h, hnull⟩
    exact ⟨h.symm, h ▸ hnull⟩

/-- Rows with the same value in a column without duplicates are the same row. -/
theorem eq_of_distinct {column : String} {rows : List Row} (h : distinct [column] rows) {r r' : Row}
    (hr : r ∈ rows) (hr' : r' ∈ rows) (hsame : r column = r' column) (hnull : r column ≠ .null) :
    r = r' := by
  have hsymm : Std.Symm fun r r' => Row.clashes [column] r r' = false :=
    ⟨fun r r' hc => (clashes_comm _ r' r).trans hc⟩
  by_contra hne
  have hclash := List.Pairwise.forall h hr hr' hne
  simp [Row.clashes, ← hsame, hnull] at hclash

theorem distinct_addColumn {columns : List String} {t : Table} {c : String} (hc : c ∉ columns)
    (v : Value) (h : distinct columns t.rows) : distinct columns (t.addColumn c v).rows := by
  simp only [distinct, Table.addColumn, List.pairwise_map, clashes_update hc]
  exact h

theorem distinct_nil (columns : List String) : distinct columns [] := List.Pairwise.nil

/-- A property of the tables of a name that a change of one table respects. -/
theorem forall_modifyTable {db : Database} {n n' : String} {f : Table → Table} {P : Table → Prop}
    (hf : ∀ t, (f t).name = t.name) (h : ∀ t ∈ db.tables, t.name = n' → P t)
    (hP : n' = n → ∀ t ∈ db.tables, t.name = n → P t → P (f t)) :
    ∀ t ∈ (db.modifyTable n f).tables, t.name = n' → P t := by
  intro t' ht' hname
  obtain ⟨t, ht, rfl⟩ := Lib.Table.mem_modify.mp ht'
  by_cases hn : t.name = n
  · rw [if_pos hn] at hname ⊢
    rw [hf] at hname
    exact hP (hname.symm.trans hn) t ht hn (h t ht hname)
  · rw [if_neg hn] at hname ⊢
    exact h t ht hname

theorem forall_append {ts : List Table} {t₀ : Table} {n : String} {P : Table → Prop}
    (h : ∀ t ∈ ts, t.name = n → P t) (h₀ : t₀.name = n → P t₀) :
    ∀ t ∈ ts ++ [t₀], t.name = n → P t := by
  intro t ht hname
  rcases List.mem_append.mp ht with ht | ht
  · exact h t ht hname
  · obtain rfl := List.mem_singleton.mp ht
    exact h₀ hname

theorem holds_keeps {db db' : Database} {s : Stmt} {f : Fact} (h : Effect db s db')
    (hk : s.keeps f = true) (hf : f.holds db) : f.holds db' := by
  cases h with
  | tableExists | indexExists | tableMissing => exact hf
  | tableCreated hnone =>
    cases f with
    | table n =>
      obtain ⟨t, ht, hname⟩ := Database.hasTable_iff.mp hf
      exact Database.hasTable_iff.mpr ⟨t, List.mem_append_left _ ht, hname⟩
    | noTable n =>
      simp only [Stmt.keeps, decide_eq_true_eq] at hk
      refine Database.hasTable_eq_false_iff.mpr fun t ht hname => ?_
      rcases List.mem_append.mp ht with ht | ht
      · exact Database.hasTable_eq_false_iff.mp hf t ht hname
      · obtain rfl := List.mem_singleton.mp ht
        exact hk hname.symm
    | columns n cs =>
      refine forall_append hf fun hname => ?_
      simpa [Stmt.keeps, ← hname] using hk
    | noColumn n c =>
      refine forall_append hf fun hname => ?_
      simpa [Stmt.keeps, ← hname] using hk
    | index ix => exact hf
    | distinct n columns => exact forall_append hf fun _ => distinct_nil columns
    | integer n c => exact forall_append hf fun _ r hr => absurd hr List.not_mem_nil
  | indexCreated =>
    cases f with
    | index ix => exact List.mem_append_left _ hf
    | table | noTable | columns | noColumn | distinct | integer => exact hf
  | columnAdded =>
    cases f with
    | table n | noTable n =>
      exact (Database.hasTable_modifyTable (f := (·.addColumn _ _)) (fun _ => rfl) n).trans hf
    | columns n cs =>
      exact forall_modifyTable (fun _ => rfl) hf fun _ t _ _ hcs c hc =>
        List.mem_append_left _ (hcs c hc)
    | noColumn n c =>
      refine forall_modifyTable (fun _ => rfl) hf fun hn t _ _ hc hmem => ?_
      rcases List.mem_append.mp hmem with hmem | hmem
      · exact hc hmem
      · simp [Stmt.keeps, hn, List.mem_singleton.mp hmem] at hk
    | index ix => exact hf
    | distinct n columns =>
      refine forall_modifyTable (fun _ => rfl) hf fun hn t _ _ hd => ?_
      exact distinct_addColumn (by simpa [Stmt.keeps, hn] using hk) _ hd
    | integer n c =>
      refine forall_modifyTable (fun _ => rfl) hf fun hn t _ _ hi r' hr' => ?_
      obtain ⟨r, hr, rfl⟩ := List.mem_map.mp hr'
      obtain ⟨i, hi⟩ := hi r hr
      refine ⟨i, ?_⟩
      rw [Function.update_of_ne (by simpa [Stmt.keeps, hn] using hk), hi]
  | tableDropped =>
    cases f with
    | table n =>
      simp only [Stmt.keeps, decide_eq_true_eq] at hk
      obtain ⟨t, ht, hname⟩ := Database.hasTable_iff.mp hf
      exact Database.hasTable_iff.mpr ⟨t, Lib.Table.mem_delete.mpr ⟨ht, hname ▸ hk⟩, hname⟩
    | noTable n =>
      exact Database.hasTable_eq_false_iff.mpr fun t ht =>
        Database.hasTable_eq_false_iff.mp hf t (Lib.Table.mem_delete.mp ht).1
    | columns n cs | noColumn n c | distinct n columns | integer n c =>
      exact fun t ht => hf t (Lib.Table.mem_delete.mp ht).1
    | index ix => exact List.mem_filter.mpr ⟨hf, hk⟩
  | rowsUpdated =>
    cases f with
    | table n | noTable n =>
      exact (Database.hasTable_modifyTable (f := (·.update _)) (fun _ => rfl) n).trans hf
    | columns n cs | noColumn n c =>
      exact forall_modifyTable (fun _ => rfl) hf fun _ _ _ _ hc => hc
    | index ix => exact hf
    | distinct n columns | integer n c =>
      simp only [Stmt.keeps, decide_eq_true_eq] at hk
      exact forall_modifyTable (fun _ => rfl) hf fun hn => absurd hn hk
  | rowsDeleted =>
    cases f with
    | table n | noTable n =>
      exact (Database.hasTable_modifyTable (f := (·.delete _)) (fun _ => rfl) n).trans hf
    | columns n cs | noColumn n c =>
      exact forall_modifyTable (fun _ => rfl) hf fun _ _ _ _ hc => hc
    | index ix => exact hf
    | distinct n columns =>
      exact forall_modifyTable (fun _ => rfl) hf fun _ _ _ _ hd => hd.sublist List.filter_sublist
    | integer n c =>
      exact forall_modifyTable (fun _ => rfl) hf fun _ _ _ _ hi r hr =>
        hi r (List.mem_filter.mp hr).1

theorem holds_gains {defs : List Index} {k : Known} {db db' : Database} {s : Stmt} {f : Fact}
    (h : Effect db s db') (hs : Sound defs k db) (hready : s.ready defs k = true)
    (hf : f ∈ s.gains) : f.holds db' := by
  cases h with
  | tableExists h => exact List.mem_singleton.mp hf ▸ h
  | tableCreated =>
    obtain rfl := List.mem_singleton.mp hf
    exact Database.hasTable_iff.mpr ⟨_, List.mem_append_right _ (List.mem_singleton_self _), rfl⟩
  | indexExists h =>
    -- an index of that name is the one defined
    rename_i ix
    obtain rfl := List.mem_singleton.mp hf
    obtain ⟨ix', hix', hname⟩ := Database.hasIndex_iff.mp h
    simp only [Stmt.ready, Bool.and_eq_true, List.contains_iff_mem] at hready
    exact hs.named ix' hix' ix hready.2 hname ▸ hix'
  | indexCreated =>
    obtain rfl := List.mem_singleton.mp hf
    exact List.mem_append_right _ (List.mem_singleton_self _)
  | columnAdded =>
    obtain rfl := List.mem_singleton.mp hf
    intro t' ht' hname
    obtain ⟨t, ht, rfl⟩ := Lib.Table.mem_modify.mp ht'
    intro c hc
    split at hname
    · rw [if_pos ‹_›]
      exact List.mem_append_right _ hc
    · exact absurd hname ‹_›
  | tableDropped =>
    obtain rfl := List.mem_singleton.mp hf
    exact Database.hasTable_eq_false_iff.mpr fun t ht => (Lib.Table.mem_delete.mp ht).2
  | tableMissing h => exact List.mem_singleton.mp hf ▸ h
  | rowsUpdated | rowsDeleted => cases hf

theorem keyed_effect {db db' : Database} {s : Stmt} (h : Effect db s db')
    (hkeyed : Lib.Table.Keyed Table.name db.tables) : Lib.Table.Keyed Table.name db'.tables := by
  cases h with
  | tableCreated h => exact hkeyed.append (Database.hasTable_eq_false_iff.mp h)
  | columnAdded | rowsUpdated | rowsDeleted => exact hkeyed.modify fun _ _ _ => rfl
  | tableDropped => exact hkeyed.delete
  | tableExists | indexExists | indexCreated | tableMissing => exact hkeyed

theorem named_effect {defs : List Index} {db db' : Database} {s : Stmt}
    (hdefs : Lib.Table.Keyed Index.name defs) (h : Effect db s db')
    (hs : ∀ ix, s = .createIndex ix → ix ∈ defs) (hnamed : Named defs db) : Named defs db' := by
  cases h with
  | indexCreated =>
    intro ix hix d hd hname
    rcases List.mem_append.mp hix with hix | hix
    · exact hnamed ix hix d hd hname
    · obtain rfl := List.mem_singleton.mp hix
      exact hdefs.eq_of_key (hs ix rfl) hd hname
  | tableDropped => exact fun ix hix => hnamed ix (List.mem_filter.mp hix).1
  | tableExists | tableCreated | indexExists | columnAdded | tableMissing | rowsUpdated
  | rowsDeleted => exact hnamed

theorem exec_ready {defs : List Index} {k : Known} {db : Database} {s : Stmt}
    (hs : Sound defs k db) (hready : s.ready defs k = true) : ∃ db', exec db s = .ok db' := by
  cases s with
  | createTable name columns =>
    simp only [exec]
    split
    · exact ⟨_, rfl⟩
    · exact ⟨_, rfl⟩
  | createIndex ix =>
    simp only [Stmt.ready, Bool.and_eq_true, List.contains_iff_mem, List.all_eq_true, Bool.or_eq_true,
      Bool.not_eq_true'] at hready
    obtain ⟨⟨⟨htable, hcolumns⟩, hunique⟩, -⟩ := hready
    obtain ⟨t, ht⟩ := Database.table_of_hasTable (hs.facts _ htable)
    obtain ⟨hmem, hname⟩ := Database.table_eq_some ht
    have hfind : (ix.columns.find? fun c => !t.columns.contains c) = none := by
      refine List.find?_eq_none.mpr fun c hc => ?_
      simpa using Known.mem_of_hasColumn hs.facts (hcolumns c hc) t hmem hname
    have hdistinct : ¬ (ix.unique = true ∧ ¬ distinct ix.columns t.rows) := by
      rintro ⟨hu, hd⟩
      rcases hunique with hunique | hunique
      · rw [hu] at hunique
        cases hunique
      · exact hd (hs.facts _ hunique t hmem hname)
    simp only [exec, ht, hfind, if_neg hdistinct]
    split
    · exact ⟨_, rfl⟩
    · exact ⟨_, rfl⟩
  | addColumn table column default =>
    simp only [Stmt.ready, Bool.and_eq_true, List.contains_iff_mem] at hready
    obtain ⟨t, ht⟩ := Database.table_of_hasTable (hs.facts _ hready.1)
    obtain ⟨hmem, hname⟩ := Database.table_eq_some ht
    have hcolumn : column ∉ t.columns := hs.facts _ hready.2 t hmem hname
    simp [exec, ht, hcolumn]
  | dropTable name =>
    simp only [exec]
    split
    · exact ⟨_, rfl⟩
    · exact ⟨_, rfl⟩
  | update table f | delete table keep =>
    simp only [Stmt.ready, List.contains_iff_mem] at hready
    obtain ⟨t, ht⟩ := Database.table_of_hasTable (hs.facts _ hready)
    simp [exec, ht]

/-! ## Checking a script -/

/-- What is known after a statement that cannot fail. -/
def checkStmt (defs : List Index) (k : Known) (s : Stmt) : Option Known :=
  if s.ready defs k then some (s.gains ++ k.filter s.keeps) else none

def checkAll (defs : List Index) : List Stmt → Known → Option Known
  | [], k => some k
  | s :: rest, k => (checkStmt defs k s).bind (checkAll defs rest)

/-- What a guard that holds tells. -/
def Guard.facts : Guard → Known
  | .tableExists n => [.table n]
  | .columnMissing n c => [.noColumn n c]
  | .someTableMissing _ | .columnPresent _ _ | .indexMissing _ | .someRow _ _ => []

/-- What a guard that fails tells. -/
def Guard.negFacts (defs : List Index) : Guard → Known
  | .tableExists n => [.noTable n]
  | .columnMissing n c => [.columns n [c]]
  | .indexMissing i => (defs.filter fun d => d.name = i).map .index
  | .columnPresent _ _ | .someTableMissing _ | .someRow _ _ => []

/-- A guard that is known to hold. -/
def Guard.known (k : Known) : Guard → Bool
  | .tableExists n => k.contains (.table n)
  | _ => false

/-- A guard that is known to fail. -/
def Guard.refuted (k : Known) : Guard → Bool
  | .tableExists n => k.contains (.noTable n)
  | .someTableMissing ns => ns.all fun n => k.contains (.table n)
  | .columnMissing n c => k.contains (.table n) && k.hasColumn n c
  | .columnPresent n c => k.contains (.noColumn n c)
  | .indexMissing i => k.any fun | .index ix => ix.name = i | _ => false
  | .someRow _ _ => false

/-- What is known after a step. With one guard in doubt, what its failure tells is
known after the step if the body establishes it too. -/
def checkStep (defs : List Index) (k : Known) (step : Step) : Option Known :=
  if step.guards.any (·.refuted k) then some k
  else
    match checkAll defs step.body (step.guards.flatMap Guard.facts ++ k) with
    | none => none
    | some after =>
      let kept := k.filter fun f => step.body.all (·.keeps f)
      match step.guards.filter (fun g => !g.known k) with
      | [] => some after
      | [g] => some ((g.negFacts defs).filter after.contains ++ kept)
      | _ => some kept

def check (defs : List Index) : List Step → Known → Option Known
  | [], k => some k
  | step :: rest, k => (checkStep defs k step).bind (check defs rest)

section
variable {defs : List Index} (hdefs : Lib.Table.Keyed Index.name defs)
include hdefs

theorem checkStmt_sound {k k' : Known} {db : Database} {s : Stmt} (hs : Sound defs k db)
    (h : checkStmt defs k s = some k') : ∃ db', exec db s = .ok db' ∧ Sound defs k' db' := by
  simp only [checkStmt, Option.ite_none_right_eq_some, Option.some.injEq] at h
  obtain ⟨hready, rfl⟩ := h
  obtain ⟨db', hdb'⟩ := exec_ready hs hready
  have heffect := exec_effect hdb'
  refine ⟨db', hdb', keyed_effect heffect hs.keyed, named_effect hdefs heffect ?_ hs.named,
    fun f hf => ?_⟩
  · rintro ix rfl
    simp only [Stmt.ready, Bool.and_eq_true, List.contains_iff_mem] at hready
    exact hready.2
  rcases List.mem_append.mp hf with hf | hf
  · exact holds_gains heffect hs hready hf
  · obtain ⟨hf, hk⟩ := List.mem_filter.mp hf
    exact holds_keeps heffect hk (hs.facts f hf)

theorem checkAll_sound {k k' : Known} {db : Database} {stmts : List Stmt} (hs : Sound defs k db)
    (h : checkAll defs stmts k = some k') :
    ∃ db', execAll stmts db = .ok db' ∧ Sound defs k' db' := by
  induction stmts generalizing k db with
  | nil =>
    obtain rfl := Option.some.inj h
    exact ⟨db, rfl, hs⟩
  | cons s rest ih =>
    obtain ⟨k₁, hk₁, hrest⟩ := Option.bind_eq_some_iff.mp h
    obtain ⟨db₁, hdb₁, hs₁⟩ := checkStmt_sound hdefs hs hk₁
    obtain ⟨db', hdb', hs'⟩ := ih hs₁ hrest
    exact ⟨db', by simp [execAll, hdb₁, hdb'], hs'⟩

end

theorem holds_keeps_all {db db' : Database} {stmts : List Stmt} {f : Fact}
    (h : execAll stmts db = .ok db') (hk : ∀ s ∈ stmts, s.keeps f = true) (hf : f.holds db) :
    f.holds db' := by
  induction stmts generalizing db with
  | nil => exact Except.ok.inj h ▸ hf
  | cons s rest ih =>
    obtain ⟨db₁, hdb₁, h⟩ := execAll_cons_ok h
    rw [List.forall_mem_cons] at hk
    exact ih h hk.2 (holds_keeps (exec_effect hdb₁) hk.1 hf)

theorem Guard.holds_facts {db : Database} {g : Guard} (h : g.holds db = true) :
    ∀ f ∈ g.facts, f.holds db := by
  intro f hf
  cases g with
  | tableExists n => exact List.mem_singleton.mp hf ▸ h
  | columnMissing n c =>
    obtain rfl := List.mem_singleton.mp hf
    simp only [Guard.holds, Bool.not_eq_true', Database.hasColumn] at h
    intro t ht hname hc
    simpa [hname, hc] using List.any_eq_false.mp h t ht
  | someTableMissing | columnPresent | indexMissing | someRow => cases hf

theorem Guard.holds_negFacts {defs : List Index} {k : Known} {db : Database} {g : Guard}
    (hs : Sound defs k db) (h : g.holds db = false) : ∀ f ∈ g.negFacts defs, f.holds db := by
  intro f hf
  cases g with
  | tableExists n => exact List.mem_singleton.mp hf ▸ h
  | columnMissing n c =>
    obtain rfl := List.mem_singleton.mp hf
    simp only [Guard.holds, Bool.not_eq_false'] at h
    obtain ⟨t, ht, hname, hc⟩ := Database.hasColumn_iff.mp h
    intro t' ht' hname' c' hc'
    obtain rfl := List.mem_singleton.mp hc'
    exact hs.keyed.eq_of_key ht' ht (hname'.trans hname.symm) ▸ hc
  | indexMissing i =>
    simp only [Guard.negFacts, List.mem_map, List.mem_filter, decide_eq_true_eq] at hf
    obtain ⟨d, ⟨hd, hname⟩, rfl⟩ := hf
    simp only [Guard.holds, Bool.not_eq_false'] at h
    obtain ⟨ix, hix, hix'⟩ := Database.hasIndex_iff.mp h
    exact hs.named ix hix d hd (hix'.trans hname.symm) ▸ hix
  | someTableMissing | columnPresent | someRow => cases hf

theorem Guard.holds_of_known {defs : List Index} {k : Known} {db : Database} {g : Guard}
    (hs : Sound defs k db) (h : g.known k = true) : g.holds db = true := by
  cases g with
  | tableExists n => exact hs.facts _ (List.contains_iff_mem.mp h)
  | someTableMissing | columnMissing | columnPresent | indexMissing | someRow => cases h

theorem Guard.holds_of_refuted {defs : List Index} {k : Known} {db : Database} {g : Guard}
    (hs : Sound defs k db) (h : g.refuted k = true) : g.holds db = false := by
  cases g with
  | tableExists n => exact hs.facts _ (List.contains_iff_mem.mp h)
  | someTableMissing ns =>
    simp only [Guard.holds, List.any_eq_false, Bool.not_eq_true', Bool.not_eq_false]
    intro n hn
    exact hs.facts (.table n) (List.contains_iff_mem.mp (List.all_eq_true.mp h n hn))
  | columnMissing n c =>
    simp only [Guard.refuted, Bool.and_eq_true, List.contains_iff_mem] at h
    obtain ⟨t, ht, hname⟩ := Database.hasTable_iff.mp (hs.facts _ h.1)
    simp only [Guard.holds, Bool.not_eq_false']
    exact Database.hasColumn_iff.mpr ⟨t, ht, hname, Known.mem_of_hasColumn hs.facts h.2 t ht hname⟩
  | columnPresent n c =>
    refine Bool.eq_false_iff.mpr fun hhas => ?_
    obtain ⟨t, ht, hname, hc⟩ := Database.hasColumn_iff.mp hhas
    exact hs.facts _ (List.contains_iff_mem.mp h) t ht hname hc
  | indexMissing i =>
    obtain ⟨f, hf, hfi⟩ := List.any_eq_true.mp h
    cases f with
    | index ix =>
      simp only [Guard.holds, Bool.not_eq_false']
      exact Database.hasIndex_iff.mpr ⟨ix, hs.facts _ hf, by simpa using hfi⟩
    | table | noTable | columns | noColumn | distinct | integer => cases hfi
  | someRow => cases h

theorem run_refuted {defs : List Index} {k : Known} {db : Database} {step : Step}
    (hs : Sound defs k db) (h : step.guards.any (·.refuted k) = true) : step.run db = .ok db := by
  obtain ⟨g, hg, hrefuted⟩ := List.any_eq_true.mp h
  have hguards : step.guards.all (·.holds db) = false := by
    refine List.all_eq_false.mpr ⟨g, hg, ?_⟩
    rw [Guard.holds_of_refuted hs hrefuted]
    exact Bool.false_ne_true
  rw [Step.run, hguards]
  rfl

section
variable {defs : List Index} (hdefs : Lib.Table.Keyed Index.name defs)
include hdefs

theorem checkStep_sound {k k' : Known} {db : Database} {step : Step} (hs : Sound defs k db)
    (h : checkStep defs k step = some k') : ∃ db', step.run db = .ok db' ∧ Sound defs k' db' := by
  simp only [checkStep] at h
  split at h
  · rename_i hrefuted
    obtain rfl := Option.some.inj h
    exact ⟨db, run_refuted hs hrefuted, hs⟩
  split at h
  · cases h
  rename_i after hafter
  by_cases hguards : step.guards.all (·.holds db) = true
  · -- the body runs
    have hs₁ : Sound defs (step.guards.flatMap Guard.facts ++ k) db := by
      refine ⟨hs.keyed, hs.named, fun f hf => ?_⟩
      rcases List.mem_append.mp hf with hf | hf
      · obtain ⟨g, hg, hf⟩ := List.mem_flatMap.mp hf
        exact Guard.holds_facts (List.all_eq_true.mp hguards g hg) f hf
      · exact hs.facts f hf
    obtain ⟨db', hdb', hs'⟩ := checkAll_sound hdefs hs₁ hafter
    refine ⟨db', by rw [Step.run, if_pos hguards, hdb'], ?_⟩
    have hkept : ∀ f ∈ k.filter (fun f => step.body.all (·.keeps f)), f.holds db' := by
      intro f hf
      obtain ⟨hf, hkeeps⟩ := List.mem_filter.mp hf
      exact holds_keeps_all hdb' (List.all_eq_true.mp hkeeps) (hs.facts f hf)
    split at h
    · exact Option.some.inj h ▸ hs'
    · obtain rfl := Option.some.inj h
      refine ⟨hs'.keyed, hs'.named, fun f hf => ?_⟩
      rcases List.mem_append.mp hf with hf | hf
      · exact hs'.facts f (List.contains_iff_mem.mp (List.mem_filter.mp hf).2)
      · exact hkept f hf
    · obtain rfl := Option.some.inj h
      exact ⟨hs'.keyed, hs'.named, hkept⟩
  · -- a guard fails, and not one that is known to hold
    refine ⟨db, by rw [Step.run, if_neg hguards], ?_⟩
    obtain ⟨g, hg, hfails⟩ := List.all_eq_false.mp (Bool.eq_false_iff.mpr hguards)
    have hmem : g ∈ step.guards.filter fun g => !g.known k := by
      refine List.mem_filter.mpr ⟨hg, ?_⟩
      cases hknown : g.known k with
      | false => rfl
      | true => exact absurd (Guard.holds_of_known hs hknown) hfails
    split at h
    · rename_i hnone
      rw [hnone] at hmem
      cases hmem
    · rename_i g' hone
      rw [hone] at hmem
      obtain rfl := List.mem_singleton.mp hmem
      obtain rfl := Option.some.inj h
      refine ⟨hs.keyed, hs.named, fun f hf => ?_⟩
      rcases List.mem_append.mp hf with hf | hf
      · exact Guard.holds_negFacts hs (Bool.eq_false_iff.mpr hfails) f (List.mem_filter.mp hf).1
      · exact hs.facts f (List.mem_filter.mp hf).1
    · obtain rfl := Option.some.inj h
      exact ⟨hs.keyed, hs.named, fun f hf => hs.facts f (List.mem_filter.mp hf).1⟩

/-- A script that passes the check succeeds, and what the check computes holds after it. -/
theorem check_sound {k k' : Known} {db : Database} {steps : List Step} (hs : Sound defs k db)
    (h : check defs steps k = some k') : ∃ db', run steps db = .ok db' ∧ Sound defs k' db' := by
  induction steps generalizing k db with
  | nil =>
    obtain rfl := Option.some.inj h
    exact ⟨db, rfl, hs⟩
  | cons step rest ih =>
    obtain ⟨k₁, hk₁, hrest⟩ := Option.bind_eq_some_iff.mp h
    obtain ⟨db₁, hdb₁, hs₁⟩ := checkStep_sound hdefs hs hk₁
    obtain ⟨db', hdb', hs'⟩ := ih hs₁ hrest
    exact ⟨db', by simp [run, hdb₁, hdb'], hs'⟩

end

/-! ## Steps without effect -/

/-- A statement that finds everything as it makes it. -/
def Stmt.noop (k : Known) : Stmt → Bool
  | .createTable n _ => k.contains (.table n)
  | .createIndex ix => k.contains (.table ix.table) && k.contains (.index ix)
  | .dropTable n => k.contains (.noTable n)
  | .addColumn _ _ _ | .update _ _ | .delete _ _ => false

def Step.noop (k : Known) (step : Step) : Bool :=
  step.guards.any (·.refuted k) || step.body.all (·.noop k)

variable {defs : List Index} {k : Known} {db : Database}

theorem exec_noop {s : Stmt} (hs : Sound defs k db) (h : s.noop k = true) : exec db s = .ok db := by
  cases s with
  | createTable n columns =>
    have hn : db.hasTable n = true := hs.facts _ (List.contains_iff_mem.mp h)
    simp [exec, hn]
  | createIndex ix =>
    simp only [Stmt.noop, Bool.and_eq_true, List.contains_iff_mem] at h
    obtain ⟨t, ht⟩ := Database.table_of_hasTable (hs.facts _ h.1)
    have hix : db.hasIndex ix.name = true := Database.hasIndex_iff.mpr ⟨ix, hs.facts _ h.2, rfl⟩
    simp [exec, ht, hix]
  | dropTable n =>
    have hn : db.hasTable n = false := hs.facts _ (List.contains_iff_mem.mp h)
    simp [exec, hn]
  | addColumn | update | delete => cases h

theorem execAll_noop {stmts : List Stmt} (hs : Sound defs k db)
    (h : ∀ s ∈ stmts, s.noop k = true) : execAll stmts db = .ok db := by
  induction stmts with
  | nil => rfl
  | cons s rest ih =>
    rw [List.forall_mem_cons] at h
    simp only [execAll, exec_noop hs h.1]
    exact ih h.2

/-- Steps that what is known makes superfluous change nothing. -/
theorem run_noop {steps : List Step} (hs : Sound defs k db)
    (h : ∀ step ∈ steps, step.noop k = true) : run steps db = .ok db := by
  induction steps with
  | nil => rfl
  | cons step rest ih =>
    rw [List.forall_mem_cons] at h
    have hstep : step.run db = .ok db := by
      rcases (Bool.or_eq_true _ _).mp h.1 with hrefuted | hbody
      · exact run_refuted hs hrefuted
      · rw [Step.run, execAll_noop hs (List.all_eq_true.mp hbody), ite_self]
    simp only [run, hstep]
    exact ih h.2

/-! ## The tables a script keeps -/

/-- A statement that changes a table only as `R` allows, and drops none that is kept. -/
def Stmt.Respects (R : Table → Table → Prop) (kept : String → Prop) : Stmt → Prop
  | .createTable _ _ | .createIndex _ => True
  | .addColumn n c v => ∀ t : Table, t.name = n → c ∉ t.columns → R t (t.addColumn c v)
  | .dropTable n => ¬ kept n
  | .update n f => ∀ t : Table, t.name = n → R t (t.update f)
  | .delete n keep => ∀ t : Table, t.name = n → R t (t.delete keep)

section
variable {R : Table → Table → Prop} {kept : String → Prop} (hrefl : ∀ t, R t t)
  (htrans : ∀ t t' t'', t.name = t'.name → R t t' → R t' t'' → R t t'')

theorem exists_modifyTable {n : String} {f : Table → Table} {t : Table} (hf : (f t).name = t.name)
    (hrefl : R t t) (hR : t.name = n → R t (f t)) (ht : t ∈ db.tables) :
    ∃ t' ∈ (db.modifyTable n f).tables, t'.name = t.name ∧ R t t' := by
  by_cases hn : t.name = n
  · exact ⟨f t, Lib.Table.mem_modify_self ht hn, hf, hR hn⟩
  · exact ⟨t, Lib.Table.mem_modify_of_ne ht hn, rfl, hrefl⟩

include hrefl

theorem effect_respects {db' : Database} {s : Stmt} (h : Effect db s db')
    (hkeyed : Lib.Table.Keyed Table.name db.tables) (hs : s.Respects R kept) {t : Table}
    (ht : t ∈ db.tables) (hkept : kept t.name) :
    ∃ t' ∈ db'.tables, t'.name = t.name ∧ R t t' := by
  cases h with
  | tableExists | indexExists | indexCreated | tableMissing => exact ⟨t, ht, rfl, hrefl t⟩
  | tableCreated => exact ⟨t, List.mem_append_left _ ht, rfl, hrefl t⟩
  | columnAdded hfound hcolumn =>
    obtain ⟨hmem, hname⟩ := Database.table_eq_some hfound
    refine exists_modifyTable rfl (hrefl t) (fun hn => hs t hn ?_) ht
    exact hkeyed.eq_of_key ht hmem (hn.trans hname.symm) ▸ hcolumn
  | tableDropped =>
    refine ⟨t, Lib.Table.mem_delete.mpr ⟨ht, fun hn => hs (hn ▸ hkept)⟩, rfl, hrefl t⟩
  | rowsUpdated => exact exists_modifyTable rfl (hrefl t) (fun hn => hs t hn) ht
  | rowsDeleted => exact exists_modifyTable rfl (hrefl t) (fun hn => hs t hn) ht

include htrans

theorem execAll_respects {db' : Database} {stmts : List Stmt} (h : execAll stmts db = .ok db')
    (hkeyed : Lib.Table.Keyed Table.name db.tables) (hs : ∀ s ∈ stmts, s.Respects R kept)
    {t : Table} (ht : t ∈ db.tables) (hkept : kept t.name) :
    ∃ t' ∈ db'.tables, t'.name = t.name ∧ R t t' := by
  induction stmts generalizing db t with
  | nil => exact ⟨t, Except.ok.inj h ▸ ht, rfl, hrefl t⟩
  | cons s rest ih =>
    obtain ⟨db₁, hdb₁, h⟩ := execAll_cons_ok h
    rw [List.forall_mem_cons] at hs
    have heffect := exec_effect hdb₁
    obtain ⟨t₁, ht₁, hname₁, hR₁⟩ := effect_respects hrefl heffect hkeyed hs.1 ht hkept
    obtain ⟨t', ht', hname', hR'⟩ := ih h (keyed_effect heffect hkeyed) hs.2 ht₁ (hname₁ ▸ hkept)
    exact ⟨t', ht', hname'.trans hname₁, htrans t t₁ t' hname₁.symm hR₁ hR'⟩

end

theorem keyed_execAll {db' : Database} {stmts : List Stmt} (h : execAll stmts db = .ok db')
    (hkeyed : Lib.Table.Keyed Table.name db.tables) : Lib.Table.Keyed Table.name db'.tables := by
  induction stmts generalizing db with
  | nil => exact Except.ok.inj h ▸ hkeyed
  | cons s rest ih =>
    obtain ⟨db₁, hdb₁, h⟩ := execAll_cons_ok h
    exact ih h (keyed_effect (exec_effect hdb₁) hkeyed)

/-- A script of respectful statements keeps every table as `R` allows. -/
theorem run_respects {R : Table → Table → Prop} {kept : String → Prop} (hrefl : ∀ t, R t t)
    (htrans : ∀ t t' t'', t.name = t'.name → R t t' → R t' t'' → R t t'')
    {db' : Database} {steps : List Step} (h : run steps db = .ok db')
    (hkeyed : Lib.Table.Keyed Table.name db.tables)
    (hs : ∀ step ∈ steps, ∀ s ∈ step.body, s.Respects R kept)
    {t : Table} (ht : t ∈ db.tables) (hkept : kept t.name) :
    ∃ t' ∈ db'.tables, t'.name = t.name ∧ R t t' := by
  induction steps generalizing db t with
  | nil => exact ⟨t, Except.ok.inj h ▸ ht, rfl, hrefl t⟩
  | cons step rest ih =>
    obtain ⟨db₁, hdb₁, h⟩ := run_cons_ok h
    rw [List.forall_mem_cons] at hs
    rw [Step.run] at hdb₁
    split at hdb₁
    · obtain ⟨t₁, ht₁, hname₁, hR₁⟩ := execAll_respects hrefl htrans hdb₁ hkeyed hs.1 ht hkept
      obtain ⟨t', ht', hname', hR'⟩ :=
        ih h (keyed_execAll hdb₁ hkeyed) hs.2 ht₁ (hname₁ ▸ hkept)
      exact ⟨t', ht', hname'.trans hname₁, htrans t t₁ t' hname₁.symm hR₁ hR'⟩
    · obtain rfl := Except.ok.inj hdb₁
      exact ih h hkeyed hs.2 ht hkept

/-! ## Scripts that only create -/

/-- Every index is on columns of an existing table. -/
def Built (db : Database) : Prop :=
  ∀ ix ∈ db.indexes, ∃ t ∈ db.tables, t.name = ix.table ∧ ∀ c ∈ ix.columns, c ∈ t.columns

def Stmt.creates : Stmt → Bool
  | .createTable _ _ | .createIndex _ => true
  | .addColumn _ _ _ | .dropTable _ | .update _ _ | .delete _ _ => false

theorem effect_creates {db' : Database} {s : Stmt} (h : Effect db s db')
    (hs : s.creates = true) : ∀ t ∈ db.tables, t ∈ db'.tables := by
  cases h with
  | tableCreated => exact fun t ht => List.mem_append_left _ ht
  | tableExists | indexExists | indexCreated | tableMissing => exact fun t ht => ht
  | columnAdded | tableDropped | rowsUpdated | rowsDeleted => cases hs

theorem built_creates {db' : Database} {s : Stmt} (h : Effect db s db')
    (hs : s.creates = true) (hbuilt : Built db) : Built db' := by
  have hkeeps := effect_creates h hs
  cases h with
  | indexCreated ht hcolumns =>
    obtain ⟨hmem, hname⟩ := Database.table_eq_some ht
    intro ix hix
    rcases List.mem_append.mp hix with hix | hix
    · exact hbuilt ix hix
    · obtain rfl := List.mem_singleton.mp hix
      exact ⟨_, hmem, hname, hcolumns⟩
  | tableCreated =>
    intro ix hix
    obtain ⟨t, ht, h⟩ := hbuilt ix hix
    exact ⟨t, hkeeps t ht, h⟩
  | tableExists | indexExists | tableMissing => exact hbuilt
  | columnAdded | tableDropped | rowsUpdated | rowsDeleted => cases hs

/-- A batch of creations that succeeds finds the columns of its indexes in the tables
that are there already. -/
theorem columns_of_createIndex (hdefs : Lib.Table.Keyed Index.name defs) {db' : Database}
    {stmts : List Stmt} (h : execAll stmts db = .ok db') (hcreates : ∀ s ∈ stmts, s.creates = true)
    (hstmts : ∀ ix, .createIndex ix ∈ stmts → ix ∈ defs)
    (hkeyed : Lib.Table.Keyed Table.name db.tables) (hnamed : Named defs db) (hbuilt : Built db)
    {ix : Index} (hix : .createIndex ix ∈ stmts) {t : Table} (ht : t ∈ db.tables)
    (hname : t.name = ix.table) : ∀ c ∈ ix.columns, c ∈ t.columns := by
  induction stmts generalizing db with
  | nil => cases hix
  | cons s rest ih =>
    obtain ⟨db₁, hdb₁, h⟩ := execAll_cons_ok h
    rw [List.forall_mem_cons] at hcreates
    have heffect := exec_effect hdb₁
    rcases List.mem_cons.mp hix with rfl | hrest
    · cases heffect with
      | indexExists hhas =>
        obtain ⟨ix', hix', hname'⟩ := Database.hasIndex_iff.mp hhas
        obtain rfl := hnamed ix' hix' ix (hstmts ix hix) hname'
        obtain ⟨t', ht', htable, hcolumns⟩ := hbuilt ix' hix'
        exact hkeyed.eq_of_key ht ht' (hname.trans htable.symm) ▸ hcolumns
      | indexCreated ht' hcolumns =>
        obtain ⟨hmem, htable⟩ := Database.table_eq_some ht'
        exact hkeyed.eq_of_key ht hmem (hname.trans htable.symm) ▸ hcolumns
    · have hs : ∀ ix, s = .createIndex ix → ix ∈ defs := by
        rintro ix rfl
        exact hstmts ix (List.mem_cons_self ..)
      exact ih h hcreates.2 (fun ix hix => hstmts ix (List.mem_cons_of_mem _ hix))
        (keyed_effect heffect hkeyed) (named_effect hdefs heffect hs hnamed)
        (built_creates heffect hcreates.1 hbuilt) hrest
        (effect_creates heffect hcreates.1 t ht)

end Voom.Lib.Sql
