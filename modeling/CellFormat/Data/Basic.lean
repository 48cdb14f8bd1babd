import CellFormat.Error
/-!
# Structured data

The values that formats are stored as: those of JSON, with whole numbers apart from all others.
-/

namespace CellFormat

inductive Data where
  | null
  | bool (b : Bool)
  | integer (n : Int)
  | real (x : Binary64)
  | string (s : String)
  | array (items : List Data)
  | object (fields : List (String × Data))
deriving Inhabited

/-- Why data is not read: it does not have the form, or it has the form of something that cannot be. -/
inductive DecodeError where
  | shape
  | invalid (reason : FormatError)
deriving DecidableEq

end CellFormat
