import CliPos.Analysis.Checkout
import CliPos.Analysis.BasketCounter
import CliPos.Analysis.BasketPieces
import CliPos.Analysis.ReceiptCents
import CliPos.Analysis.ReceiptStream
import CliPos.Analysis.DrawingLoops
import CliPos.Analysis.OneCommand
import CliPos.Analysis.View
import CliPos.Analysis.Window
import CliPos.Analysis.Cursor
import CliPos.Analysis.SearchFinds
import CliPos.Analysis.Accept
import CliPos.Analysis.Cancelling
import CliPos.Analysis.Conversions
import CliPos.Analysis.Upsert
import CliPos.Analysis.CodeMoves
import CliPos.Analysis.Interleavings
import CliPos.Analysis.WorkProtocol
import CliPos.Analysis.Retries
import CliPos.Analysis.LineEditor
import CliPos.Analysis.Navigation
import CliPos.Analysis.RowWidths
import CliPos.Analysis.MenuStack
import CliPos.Analysis.TwoForms
import CliPos.Analysis.SharedRedraw
import CliPos.Analysis.SearchRounds
import CliPos.Analysis.Sorting
import CliPos.Analysis.Scanning
import CliPos.Analysis.Breadcrumbs
import CliPos.Analysis.TaxRates
import CliPos.Analysis.HeadWidths
import CliPos.Analysis.Echo
import CliPos.Analysis.ValidTill
import CliPos.Analysis.ShopRuns
