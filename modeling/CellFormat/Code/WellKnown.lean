/-!
# Well-known codes

The codes of frequently used number formats.
-/

namespace CellFormat.Code

def general : String := "General"

def number : String := "0"

def numberTwoDecimals : String := "0.00"

def grouped : String := "#,##0"

def groupedTwoDecimals : String := "#,##0.00"

def groupedTwoDecimalsPadded : String := "#,##0.00_-"

def euro : String := "#,##0_-\"€\""

def euroTwoDecimals : String := "#,##0.00_-\"€\""

def dollar : String := "\"$\"#,##0_-"

def dollarTwoDecimals : String := "\"$\"#,##0.00_-"

def percent : String := "0%"

def percentTwoDecimals : String := "0.00%"

def text : String := "@"

/-- The codes that documents choose from by name. -/
def wellKnown : List String := [
  general, number, numberTwoDecimals, groupedTwoDecimals, groupedTwoDecimalsPadded, euro, euroTwoDecimals,
  dollar, dollarTwoDecimals, percent, percentTwoDecimals, text]

end CellFormat.Code
