import BitLayout.Bits
import BitLayout.Cursor
import BitLayout.Decimal.Literal
import BitLayout.Decimal.Notation
import BitLayout.DisplayOptions
import BitLayout.Document
import BitLayout.Enumeration
import BitLayout.Field
import BitLayout.Field.Names
import BitLayout.FloatFormat
import BitLayout.Layout
import BitLayout.Main
import BitLayout.Numeral
import BitLayout.Prepared
import BitLayout.Register.Basic
import BitLayout.Register.Input
import BitLayout.Register.Session
import BitLayout.Report
import BitLayout.Table
import BitLayout.Text.Basic
import BitLayout.Text.Quoted
import BitLayout.Text.UpperCase
import BitLayout.Token
import BitLayout.Value
import BitLayout.Work
import BitLayout.Proofs.Bits.Window
import BitLayout.Proofs.Checked.Document
import BitLayout.Proofs.Layout.Packing
import BitLayout.Proofs.Register.FieldAccess
import BitLayout.Proofs.Written.Meaning
import BitLayout.Proofs.Cursor.Line
import BitLayout.Proofs.Cursor.Row
import BitLayout.Proofs.Document.Unnoticed
import BitLayout.Proofs.Document.Continuation
import BitLayout.Proofs.Document.LineEnd
import BitLayout.Proofs.Document.Lines
import BitLayout.Proofs.Numeral.Spelling
import BitLayout.Proofs.Register.ByName
import BitLayout.Proofs.Enumeration.Whole
import BitLayout.Proofs.Layout.WrittenBack
import BitLayout.Proofs.Register.Transaction
import BitLayout.Proofs.Register.Readers
import BitLayout.Proofs.Register.Retyped
import BitLayout.Proofs.Decimal.Literal
import BitLayout.Proofs.Register.ShownFloat
import BitLayout.Proofs.Report.Written
import BitLayout.Proofs.Cursor.Lossless
import BitLayout.Proofs.Document.NamedLine
import BitLayout.Proofs.Layout.Imported
import BitLayout.Proofs.Register.Widths
import BitLayout.Proofs.Enumeration.Values
import BitLayout.Proofs.Numeral.Grammar
import BitLayout.Proofs.Field.Names
import BitLayout.Proofs.Field.Canonical
import BitLayout.Proofs.Bits.TestBit
import BitLayout.Proofs.Numeral.Padded
import BitLayout.Proofs.Register.BitAccess
import BitLayout.Proofs.Register.Views
import BitLayout.Proofs.Cursor.LookAhead
import BitLayout.Proofs.Float.Nearest
import BitLayout.Proofs.Float.Narrowed
import BitLayout.Proofs.Decimal.Grammar
import BitLayout.Proofs.Register.FloatInput
import BitLayout.Proofs.Cursor.Inside
import BitLayout.Proofs.Enumeration.Offset
import BitLayout.Proofs.Numeral.Aligned
import BitLayout.Proofs.Document.Offset
