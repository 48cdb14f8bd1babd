import CellFormat.Code.Printer
import CellFormat.Data.Decode
import CellFormat.Data.Encode
import CellFormat.OpenDocument.DocumentStyles
import CellFormat.Registry.Shared
import CellFormat.Spreadsheet.FormatTable
import CellFormat.Xml.Reader
import CellFormat.Proofs.Code.ConditionText
import CellFormat.Proofs.Code.Cuts
import CellFormat.Proofs.Code.Escapes
import CellFormat.Proofs.Code.Literals
import CellFormat.Proofs.Code.QuotedRuns
import CellFormat.Proofs.Code.Strictness
import CellFormat.Proofs.Code.SurplusSections
import CellFormat.Proofs.Code.TagOrder
import CellFormat.Proofs.Code.TokenReaders
import CellFormat.Proofs.Data.ReadBack
import CellFormat.Proofs.DigitBlock.Grammar
import CellFormat.Proofs.DigitBlock.NormalForm
import CellFormat.Proofs.DigitBlock.Setters
import CellFormat.Proofs.OpenDocument.ReadBack
import CellFormat.Proofs.OpenDocument.Views
import CellFormat.Proofs.Registry.Shared
import CellFormat.Proofs.SectionLimit
import CellFormat.Proofs.Spreadsheet.ReadBack
import CellFormat.Proofs.Xml.Tags
