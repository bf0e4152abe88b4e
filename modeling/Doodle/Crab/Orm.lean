/-
  `orm.Stmt` of the vendored crab library: the texts of its count and select statements.

  A struct is given by the list of its exported fields, in order: a plain column (with its `db`
  tag), a `db_table:"one"` struct, or a slice, which has no column.
-/
import Mathlib.Tactic.Common

namespace Doodle.Crab

/-- `FieldEscape`: lower case, with an underscore before each run of upper case letters but the
    first. `up` says that the letter before was upper case. -/
def escapeChars (up : Bool) : List Char → List Char
  | [] => []
  | c :: cs =>
    if c.isUpper then
      (if up then [c.toLower] else ['_', c.toLower]) ++ escapeChars true cs
    else c :: escapeChars false cs

def fieldEscape (k : String) : String := String.ofList (escapeChars true k.toList)

example : fieldEscape "ResourceID" = "resource_id" := by decide

/-- A plain column of a struct: the field's name and its `db` tag. -/
structure Column where
  name : String
  db : String := ""

/-- A field of a queried struct. -/
inductive OrmField where
  | column (c : Column)
  | one (name : String) (fields : List Column)
  | slice (name : String)

/-- `orm.Stmt`, without its connection and its `group`, which no caller sets. -/
structure Stmt where
  table : String
  cond : String := ""
  sort : String := ""
  order : String := ""
  offset : Int := 0
  limit : Int := 0

namespace Stmt

/-- `NewStmt(db, table)` -/
def new (table : String) : Stmt := { table := table }

/-- `Where` replaces the condition. -/
def setWhere (s : Stmt) (w : String) : Stmt := { s with cond := w }

/-- `addWhere` adds to the condition. -/
def addWhere (s : Stmt) (w : String) : Stmt :=
  { s with cond := (if s.cond ≠ "" then s.cond ++ " and " else s.cond) ++ w }

/-- The limit part: only a positive limit is written, and before it only a positive offset. -/
def limitText (offset limit : Int) : String :=
  if limit > 0 then
    " limit " ++ (if offset > 0 then toString offset ++ "," else "") ++ toString limit
  else ""

/-- `SQLCondition`: the where, order and limit parts. -/
def sqlCondition (s : Stmt) : String :=
  (if s.cond ≠ "" then " where " ++ s.cond else "") ++
  (if s.sort ≠ "" then
    " order by " ++ s.sort ++ (if s.order ≠ "" then " " ++ s.order else "")
  else "") ++
  limitText s.offset s.limit

/-- `SQLCount` -/
def sqlCount (s : Stmt) : String := "select count(*) from " ++ s.table ++ s.sqlCondition

/-- One column of `SQLColumn`, with the separator after it. -/
def columnText (table : String) (c : Column) : String :=
  let name := if c.db = "" then fieldEscape c.name else c.db
  (if name.toList.contains '.' then "" else table ++ ".") ++ name ++ ", "

/-- `SQLColumn`: the columns of the fields, each followed by `", "`, and the statement with the
    tables and conditions that its `one` fields add. -/
def sqlColumn (table : String) : List OrmField → Stmt → String × Stmt
  | [], s => ("", s)
  | .column c :: fs, s =>
    let (text, s) := sqlColumn table fs s
    (columnText table c ++ text, s)
  | .one name cols :: fs, s =>
    let t := fieldEscape name
    let s := { s with table := s.table ++ "," ++ t }
    let s := s.addWhere (table ++ "." ++ t ++ "_id = " ++ t ++ ".id")
    let (text, s) := sqlColumn table fs s
    (String.join (cols.map (columnText t)) ++ text, s)
  | .slice _ :: fs, s => sqlColumn table fs s

/-- `SQLQuery` for a struct with these fields, from the statement's one table. -/
def sqlQuery (s : Stmt) (fields : List OrmField) : String :=
  let (cols, s) := sqlColumn s.table fields s
  "select " ++ String.ofList (cols.toList.dropLast.dropLast) ++ " from " ++ s.table ++ s.sqlCondition

/-- `Query` into one struct sets the limit to 1. -/
def one (s : Stmt) : Stmt := { s with limit := 1 }

theorem sqlCount_setWhere (table : String) {cond : String} (h : cond ≠ "") :
    ((new table).setWhere cond).sqlCount =
      "select count(*) from " ++ table ++ (" where " ++ cond) := by
  unfold sqlCount sqlCondition limitText setWhere new
  dsimp only
  rw [if_pos h, if_neg (fun hn => hn rfl), if_neg (by decide), String.append_empty,
    String.append_empty]

/-- Plain columns leave the statement as it is. -/
theorem sqlColumn_columns (table : String) (cols : List Column) (s : Stmt) :
    sqlColumn table (cols.map .column) s = (String.join (cols.map (columnText table)), s) := by
  induction cols with
  | nil => rfl
  | cons c cs ih => simp only [List.map_cons, sqlColumn, ih, String.join_cons]

/-- The columns do not depend on the order and the page, and leave them as they are. -/
theorem sqlColumn_page (table order : String) (offset limit : Int) (fields : List OrmField) :
    ∀ s : Stmt, sqlColumn table fields { s with order := order, offset := offset, limit := limit } =
      ((sqlColumn table fields s).1,
        { (sqlColumn table fields s).2 with order := order, offset := offset, limit := limit }) := by
  induction fields with
  | nil => intro s; rfl
  | cons f fs ih =>
    intro s
    cases f with
    | column c => simp only [sqlColumn, ih]
    | one name cols =>
      have hstep := ih (addWhere { s with table := s.table ++ "," ++ fieldEscape name }
        (table ++ "." ++ fieldEscape name ++ "_id = " ++ fieldEscape name ++ ".id"))
      simp only [sqlColumn, addWhere] at hstep ⊢
      rw [hstep]
    | slice name => exact ih s

theorem sqlColumn_sort (table : String) (fields : List OrmField) :
    ∀ s : Stmt, (sqlColumn table fields s).2.sort = s.sort := by
  induction fields with
  | nil => intro s; rfl
  | cons f fs ih =>
    intro s
    cases f with
    | column c => exact ih s
    | one name cols => exact ih _
    | slice name => exact ih s

/-- Without a sort column the order is not written, and the page is the end of the text. -/
theorem sqlQuery_page (s : Stmt) (hs : s.sort = "") (order : String) (offset limit : Int)
    (fields : List OrmField) :
    sqlQuery { s with order := order, offset := offset, limit := limit } fields =
      sqlQuery { s with order := "", offset := 0, limit := 0 } fields ++ limitText offset limit := by
  have hsort : (sqlColumn s.table fields s).2.sort = "" := by rw [sqlColumn_sort, hs]
  have hnone : limitText 0 0 = "" := rfl
  simp only [sqlQuery, sqlColumn_page, sqlCondition, hsort, hnone, ne_eq, not_true_eq_false,
    if_false, String.append_empty, String.append_assoc]

end Stmt

example : ((Stmt.new "service").setWhere "id=5").one.sqlQuery
    [.column ⟨"ID", ""⟩, .column ⟨"RoleID", ""⟩, .column ⟨"CTime", "ctime"⟩] =
    "select service.id, service.role_id, service.ctime from service where id=5 limit 1" := by decide

end Doodle.Crab
