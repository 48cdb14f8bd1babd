import CellFormat.Code.Parser
import CellFormat.Code.WellKnown
/-!
# Built-in formats

The number formats that every spreadsheet application knows by id, so that documents need not declare them.
Those for dates and times are not among them.
-/

namespace CellFormat.Builtin

/-- The ids and the codes of the built-in formats, in ascending order. -/
def codes : List (Nat × String) := [
  (0, Code.general), (1, Code.number), (2, Code.numberTwoDecimals), (3, Code.grouped),
  (4, Code.groupedTwoDecimals), (9, Code.percent), (10, Code.percentTwoDecimals),
  (37, "#,##0 ;(#,##0)"), (38, "#,##0 ;[Red](#,##0)"),
  (39, "#,##0.00;(#,##0.00)"), (40, "#,##0.00;[Red](#,##0.00)"), (49, Code.text)]

/-- The id of the format that shows a value as it is. -/
def generalId : Nat := 0

def code? (id : Nat) : Option String := codes.lookup id

/-- The ids and the formats that their codes describe. -/
def formats : List (Nat × Format) :=
  codes.filterMap fun (id, code) => (Format.parse code).toOption.map (id, ·)

def format? (id : Nat) : Option Format := formats.lookup id

/-- The id of a built-in format that is equal to `f`. -/
def id? (f : Format) : Option Nat := (formats.find? fun (_, builtin) => builtin == f).map Prod.fst

end CellFormat.Builtin
